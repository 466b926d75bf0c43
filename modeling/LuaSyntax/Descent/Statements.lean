import LuaSyntax.Descent.Expressions

/-!
Functions and statements from the top down. A statement that starts with a keyword is called where
the keyword is next, and passes over it unseen.
-/
namespace LuaSyntax.Descent

/-! ### Functions -/

def segmentRound (path : String) : Script (Round String) := do
  match ← tryPop (.symbol .dot) with
  | some _ => return .again (extendPath path (← expectName))
  | none => return .done path

def functionPath : Script String := do
  let first ← expectName
  let path ← call (.loop .segments first)
  match ← tryPop (.symbol .colon) with
  | some _ => return extendPath path (← expectName)
  | none => return path

def parameters : Script (List String) := do
  let _ ← expect (.symbol .openParen)
  match ← tryPop (.symbol .closeParen) with
  | some _ => return []
  | none =>
    let first ← expectName
    let names ← call (.loop .names [first])
    let _ ← expect (.symbol .closeParen)
    return names

def functionBody : Script FunctionBody := do
  let params ← call .parameters
  let body ← call .statements
  let _ ← expect (.keyword .end)
  return ⟨params, body⟩

def function : Script NamedFunction := do
  let path ← call .functionPath
  return ⟨path, ← call .functionBody⟩

/-! ### Statements -/

def targetOf (c : Chain) (line : Nat) : Script Expr :=
  match c.target? with
  | some e => .done e
  | none => .fail (.invalidTarget line)

def checkArity (line : Nat) (targets values : List Expr) : Script Unit :=
  if targets.length = values.length then .done ()
  else .fail (.arity line targets.length values.length)

def target : Script Expr := do
  let line ← peekLine
  let c ← call .chain
  targetOf c line

def assignment (first : Chain) (line : Nat) : Script Stmt := do
  let e ← targetOf first line
  let targets ← call (.loop .targets [e])
  let assign ← expect (.symbol .assign)
  let values ← call .values
  checkArity assign.line targets values
  return .assign (.assignment false targets values)

def assignOrCall : Script Stmt := do
  let line ← peekLine
  let c ← call .chain
  match c with
  | .call f args =>
    let kind ← peekKind
    if isAssign kind || isComma kind then call (.assignment c line) else return .call f args
  | _ => call (.assignment c line)

def localStatement : Script Stmt := do
  skip
  match ← tryPop (.keyword .function) with
  | some _ =>
    let f ← call .function
    return .definition true f.path f.body.params f.body.body
  | none =>
    let first ← expectName
    let names ← call (.loop .names [first])
    let targets := names.map Expr.var
    match ← tryPop (.symbol .assign) with
    | some assign =>
      let values ← call .values
      checkArity assign.line targets values
      return .assign (.assignment true targets values)
    | none => return .assign (.assignment true targets (names.map fun _ => .nil))

def functionStatement : Script Stmt := do
  skip
  let f ← call .function
  return .definition false f.path f.body.params f.body.body

def returnStatement : Script Stmt := do
  skip
  let values ← if endsBlock (← peekKind) then pure [] else call .values
  let _ ← tryPop (.symbol .semicolon)
  return .return values

def doStatement : Script Stmt := do
  skip
  let body ← call .statements
  let _ ← expect (.keyword .end)
  return .block body

def whileStatement : Script Stmt := do
  skip
  let cond ← call .expr
  let _ ← expect (.keyword .do)
  let body ← call .statements
  let _ ← expect (.keyword .end)
  return .while cond body

def repeatStatement : Script Stmt := do
  skip
  let body ← call .statements
  let _ ← expect (.keyword .until)
  return .repeat body (← call .expr)

def ifStatement : Script Stmt := do
  skip
  call .ifArm

/-- An arm and all that follows it, through the one `end`. -/
def ifArm : Script Stmt := do
  let cond ← call .expr
  let _ ← expect (.keyword .then)
  let body ← call .statements
  match ← peekKind with
  | some (.keyword .elseif) =>
    skip
    return .if cond body [← call .ifArm]
  | some (.keyword .else) =>
    skip
    let alternative ← call .statements
    let _ ← expect (.keyword .end)
    return .if cond body alternative
  | _ =>
    let _ ← expect (.keyword .end)
    return .if cond body []

def forStep : Script Expr := do
  match ← tryPop (.symbol .comma) with
  | some _ => call .expr
  | none => return .number .one

def numericFor (name : String) : Script Stmt := do
  let start ← call .expr
  let _ ← expect (.symbol .comma)
  let limit ← call .expr
  let step ← forStep
  let _ ← expect (.keyword .do)
  let body ← call .statements
  let _ ← expect (.keyword .end)
  return ParserState.numericFor name start limit step body

def genericFor (name : String) : Script Stmt := do
  let names ← call (.loop .names [name])
  let _ ← expect (.keyword .in)
  let values ← call .values
  let _ ← expect (.keyword .do)
  let body ← call .statements
  let _ ← expect (.keyword .end)
  return .genericFor names values body

def forStatement : Script Stmt := do
  skip
  let name ← expectName
  match ← tryPop (.symbol .assign) with
  | some _ => call (.numericFor name)
  | none => call (.genericFor name)

/-- The procedure for a statement that starts with a token of this kind. -/
def statementProcedure : TokenKind → Procedure Stmt
  | .keyword .if => .ifStatement
  | .keyword .while => .whileStatement
  | .keyword .repeat => .repeatStatement
  | .keyword .do => .doStatement
  | .keyword .local => .localStatement
  | .keyword .for => .forStatement
  | .keyword .function => .functionStatement
  | _ => .assignOrCall

/-- Nothing is read after `return`, nor before what a block stops at. -/
def statementRound (ss : List Stmt) : Script (Round (List Stmt)) := do
  match ← peekKind with
  | none => return .done ss
  | some (.symbol .semicolon) =>
    skip
    return .again ss
  | some (.keyword .return) => return .done (ss ++ [← call .returnStatement])
  | some (.keyword .break) =>
    skip
    return .again (ss ++ [.break])
  | some kind =>
    if kind.closesBlock then return .done ss
    else return .again (ss ++ [← call (statementProcedure kind)])

def program : Script Program := do
  let ss ← call .statements
  match ← next with
  | some t => unexpected t
  | none => return ss

end LuaSyntax.Descent
