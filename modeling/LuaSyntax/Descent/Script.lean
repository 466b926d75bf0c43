import LuaSyntax.Parser.Shift

/-!
Scripts for the procedures of a parser from the top down, one for each kind of phrase. A script
looks at the next token, takes it, fails, or calls a procedure. So the calls are there to be
counted, and no procedure is defined by itself.
-/
namespace LuaSyntax.Descent

/-- What is read piece by piece: a loop has what it has read so far, and ends with it. -/
inductive Loop : Type → Type
  | statements : Loop (List Stmt)
  | operators (limit : Nat) : Loop Expr
  | suffixes : Loop Chain
  | entries : Loop (List Entry)
  | values : Loop (List Expr)
  | targets : Loop (List Expr)
  | names : Loop (List String)
  | segments : Loop String

/-- Whether a loop goes round once more. -/
inductive Round (σ : Type)
  | again (s : σ)
  | done (s : σ)

structure FunctionBody where
  params : List String
  body : List Stmt

structure NamedFunction where
  path : String
  body : FunctionBody

/-- The procedures with their arguments, and what each reads. A loop is one that calls itself. -/
inductive Procedure : Type → Type 1
  | program : Procedure Program
  | statements : Procedure (List Stmt)
  | returnStatement : Procedure Stmt
  | ifStatement : Procedure Stmt
  | ifArm : Procedure Stmt
  | whileStatement : Procedure Stmt
  | repeatStatement : Procedure Stmt
  | doStatement : Procedure Stmt
  | localStatement : Procedure Stmt
  | forStatement : Procedure Stmt
  | numericFor (name : String) : Procedure Stmt
  | genericFor (name : String) : Procedure Stmt
  | functionStatement : Procedure Stmt
  | function : Procedure NamedFunction
  | functionPath : Procedure String
  | functionBody : Procedure FunctionBody
  | parameters : Procedure (List String)
  | assignOrCall : Procedure Stmt
  | assignment (first : Chain) (line : Nat) : Procedure Stmt
  | values : Procedure (List Expr)
  | expr : Procedure Expr
  | subexpr (limit : Nat) : Procedure Expr
  | simpleExpr : Procedure Expr
  | chain : Procedure Chain
  | suffixes (c : Chain) : Procedure Chain
  | table : Procedure Expr
  | entry : Procedure Entry
  | arguments : Procedure (List Expr)
  | loop {σ : Type} (l : Loop σ) (s : σ) : Procedure σ

/-- A script ends, fails, or goes on with the next token, which it leaves or takes, or with what a
procedure has read. -/
inductive Script (α : Type) : Type 1
  | done (a : α)
  | fail (e : SyntaxError)
  | look (k : Option Token → Script α)
  | take (k : Option Token → Script α)
  | invoke {β : Type} (p : Procedure β) (k : β → Script α)

namespace Script

variable {α β : Type}

def bind : Script α → (α → Script β) → Script β
  | done a, f => f a
  | fail e, _ => fail e
  | look k, f => look fun t => (k t).bind f
  | take k, f => take fun t => (k t).bind f
  | invoke p k, f => invoke p fun b => (k b).bind f

instance : Monad Script where
  pure := done
  bind := bind

end Script

section

variable {α : Type}

def call (p : Procedure α) : Script α := .invoke p .done

def unexpected (t : Token) : Script α := .fail (.unexpected t.line t.text)

def peek : Script (Option Token) := .look .done

def peekKind : Script (Option TokenKind) := do return (← peek).map Token.kind

def next : Script (Option Token) := .take .done

/-- Passes over the next token, whatever it is. -/
def skip : Script Unit := .take fun _ => .done ()

/-- The next token, of which there has to be one. -/
def nextToken : Script Token := do
  match ← next with
  | some t => return t
  | none => .fail .unexpectedEnd

def peekLine : Script Nat := do
  match ← peek with
  | some t => return t.line
  | none => .fail .unexpectedEnd

/-- The next token, which has to be of the given kind. -/
def expect (kind : TokenKind) : Script Token := do
  let t ← nextToken
  if t.kind = kind then return t else .fail (.expected t.line t.text kind)

def expectName : Script String := do return (← expect .name).text

/-- Takes the next token if it is of the given kind. -/
def tryPop (kind : TokenKind) : Script (Option Token) := do
  if (← peekKind) = some kind then next else return none

end

end LuaSyntax.Descent
