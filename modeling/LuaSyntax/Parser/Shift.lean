import LuaSyntax.Parser.Settle
import LuaSyntax.Source.StringLiteral

/-!
Reading one token in a settled state.
-/
namespace LuaSyntax

def Token.unexpected {α : Type} (t : Token) : Parsing α := .error (.unexpected t.line t.text)

/-- The token has to be of the given kind. -/
def Token.expect (t : Token) (kind : TokenKind) (s : ParserState) : Parsing ParserState :=
  if t.kind = kind then .ok s else .error (.expected t.line t.text kind)

def Token.expectKeyword (t : Token) (k : Keyword) : ParserState → Parsing ParserState :=
  t.expect (.keyword k)

def Token.expectSymbol (t : Token) (y : Symbol) : ParserState → Parsing ParserState :=
  t.expect (.symbol y)

namespace ParserState

/-- The loop variable and its start are a local assignment; the step is one unless it is given. -/
def numericFor (name : String) (start limit step : Expr) (body : List Stmt) : Stmt :=
  .numericFor (.assignment true [.var name] [start]) limit step body

/-- Reads the token that ends a block, or the one that ends its part of a conditional. -/
def closeBlock (t : Token) : BlockContext → Parsing ParserState
  | .block body owner =>
    match owner with
    | .program => t.unexpected
    | .block k => t.expectKeyword .end (.statement (k.push (.block body)))
    | .while cond k => t.expectKeyword .end (.statement (k.push (.while cond body)))
    | .repeat k => t.expectKeyword .until (.operand (.untilCond body k))
    | .thenPart arms cond k =>
      let arms := arms ++ [⟨cond, body⟩]
      match t.kind with
      | .keyword .elseif => .ok (.operand (.ifCond arms k))
      | .keyword .else => .ok (.enter (.elsePart arms k))
      | _ => t.expectKeyword .end (.statement (k.append (conditional arms [])))
    | .elsePart arms k => t.expectKeyword .end (.statement (k.append (conditional arms body)))
    | .numericFor name start limit step k =>
      t.expectKeyword .end (.statement (k.push (numericFor name start limit step body)))
    | .genericFor names values k =>
      t.expectKeyword .end (.statement (k.push (.genericFor names values body)))
    | .function (.definition isLocal path k) params =>
      t.expectKeyword .end (.statement (k.push (.definition isLocal path params body)))
    | .function (.anonymous k) params => t.expectKeyword .end (.operator (.function params body) k)

def startChain (t : Token) (k : ChainContext) : Parsing ParserState :=
  match t.kind with
  | .name => .ok (.suffix (.place (.name t.text)) k)
  | .symbol .openParen => .ok (.operand (.parens k))
  | _ => t.unexpected

def shiftStatement (t : Token) (k : BlockContext) : Parsing ParserState :=
  match t.kind with
  | .symbol .semicolon => .ok (.statement k)
  | .keyword .return => .ok (.returning k)
  | .keyword .break => .ok (.statement (k.push .break))
  | .keyword .if => .ok (.operand (.ifCond [] k))
  | .keyword .while => .ok (.operand (.whileCond k))
  | .keyword .repeat => .ok (.enter (.repeat k))
  | .keyword .do => .ok (.enter (.block k))
  | .keyword .local => .ok (.firstLocal k)
  | .keyword .for => .ok (.forVariable k)
  | .keyword .function => .ok (.functionName false k)
  | kind => if kind.closesBlock then closeBlock t k else startChain t (.statement t.line k)

def shiftOperand (t : Token) (k : ExprContext) : Parsing ParserState :=
  match t.kind with
  | .symbol .minus => .ok (.operand (.unary .minus k))
  | .keyword .not => .ok (.operand (.unary .not k))
  | .keyword .nil => .ok (.operator .nil k)
  | .keyword .true => .ok (.operator (.boolean true) k)
  | .keyword .false => .ok (.operator (.boolean false) k)
  | .number n => .ok (.operator (.number n.toBinary64) k)
  | .string => .ok (.operator (.string (StringLiteral.value t.text)) k)
  | .keyword .function => .ok (.parameterList (.anonymous k))
  | .symbol .openBrace => .ok (.entry [] (.operand k))
  | _ => startChain t (.operand k)

def closeTable (entries : List Entry) : TableContext → ParserState
  | .operand k => .operator (.table entries) k
  | .argument f k => .suffix (.call f [.table entries]) k

/-- Reads what follows a complete expression, other than an operator. -/
def endOperand (t : Token) (e : Expr) : ExprContext → Parsing ParserState
  | .parens k => t.expectSymbol .closeParen (.suffix (.parens e) k)
  | .subscript table k => t.expectSymbol .closeBracket (.suffix (.place (.index table e)) k)
  | .argument f args k =>
    if t.kind = .symbol .comma then .ok (.operand (.argument f (args ++ [e]) k))
    else t.expectSymbol .closeParen (.suffix (.call f (args ++ [e])) k)
  | .entryKey entries k => t.expectSymbol .closeBracket (.entryAssign entries e k)
  | .entryValue entries key k =>
    if t.kind = .symbol .comma then .ok (.entry (entries ++ [.entry key e]) k)
    else t.expectSymbol .closeBrace (closeTable (entries ++ [.entry key e]) k)
  | .whileCond k => t.expectKeyword .do (.enter (.while e k))
  | .ifCond arms k => t.expectKeyword .then (.enter (.thenPart arms e k))
  | .forStart name k => t.expectSymbol .comma (.operand (.forLimit name e k))
  | .forLimit name start k =>
    if t.kind = .symbol .comma then .ok (.operand (.forStep name start e k))
    else t.expectKeyword .do (.enter (.numericFor name start e (.number .one) k))
  | .forStep name start limit k => t.expectKeyword .do (.enter (.numericFor name start limit e k))
  | .forValue names values k =>
    if t.kind = .symbol .comma then .ok (.operand (.forValue names (values ++ [e]) k))
    else t.expectKeyword .do (.enter (.genericFor names (values ++ [e]) k))
  | .returned values k => t.expectSymbol .comma (.operand (.returned (values ++ [e]) k))
  | .assigned isLocal targets line values k =>
    t.expectSymbol .comma (.operand (.assigned isLocal targets line (values ++ [e]) k))
  | .unary _ _ | .binary _ _ _ | .untilCond _ _ => t.unexpected

def shiftOperator (t : Token) (e : Expr) (k : ExprContext) : Parsing ParserState :=
  match BinaryOp.ofToken? t.kind with
  | some op => .ok (.operand (.binary e op k))
  | none => endOperand t e k

def shiftSuffix (t : Token) (c : Chain) (k : ChainContext) : Parsing ParserState :=
  match t.kind with
  | .symbol .dot => .ok (.member c k)
  | .symbol .openBracket => .ok (.operand (.subscript c.expr k))
  | .symbol .openParen => .ok (.firstArgument c.expr k)
  | .symbol .openBrace => .ok (.entry [] (.argument c.expr k))
  | _ => t.unexpected

def shiftEntry (t : Token) (entries : List Entry) (k : TableContext) : Parsing ParserState :=
  match t.kind with
  | .symbol .closeBrace => .ok (closeTable entries k)
  | .name => .ok (.entryAssign entries (.name t.text) k)
  | .symbol .openBracket => .ok (.operand (.entryKey entries k))
  | _ => t.unexpected

def shiftFunctionPath (t : Token) (isLocal : Bool) (path : String) (k : BlockContext) :
    Parsing ParserState :=
  match t.kind with
  | .symbol .dot => .ok (.functionMember isLocal path k)
  | .symbol .colon => .ok (.functionMethod isLocal path k)
  | _ => t.expectSymbol .openParen (.firstParameter (.definition isLocal path k))

def enterFunction (head : FunctionHead) (params : List String) : ParserState :=
  .enter (.function head params)

def shift (t : Token) : ParserState → Parsing ParserState
  | .statement k => shiftStatement t k
  | .returning _ => t.unexpected
  | .returned k => if t.kind = .symbol .semicolon then .ok (.closed k) else closeBlock t k
  | .closed k => closeBlock t k
  | .operand k => shiftOperand t k
  | .operator e k => shiftOperator t e k
  | .suffix c k => shiftSuffix t c k
  | .member c k => t.expect .name (.suffix (c.member t.text) k)
  | .firstArgument f k =>
    if t.kind = .symbol .closeParen then .ok (.suffix (.call f []) k)
    else shiftOperand t (.argument f [] k)
  | .nextTarget targets k => startChain t (.target targets t.line k)
  | .afterTarget targets k =>
    if t.kind = .symbol .comma then .ok (.nextTarget targets k)
    else t.expectSymbol .assign (.operand (.assigned false targets t.line [] k))
  | .entry entries k => shiftEntry t entries k
  | .entryAssign entries key k => t.expectSymbol .assign (.operand (.entryValue entries key k))
  | .firstLocal k =>
    if t.kind = .keyword .function then .ok (.functionName true k)
    else t.expect .name (.afterLocal [t.text] k)
  | .nextLocal names k => t.expect .name (.afterLocal (names ++ [t.text]) k)
  | .afterLocal names k =>
    if t.kind = .symbol .comma then .ok (.nextLocal names k)
    else t.expectSymbol .assign (.operand (.assigned true (names.map .var) t.line [] k))
  | .forVariable k => t.expect .name (.afterForVariable t.text k)
  | .afterForVariable name k =>
    if t.kind = .symbol .assign then .ok (.operand (.forStart name k))
    else if t.kind = .symbol .comma then .ok (.nextForName [name] k)
    else t.expectKeyword .in (.operand (.forValue [name] [] k))
  | .nextForName names k => t.expect .name (.afterForName (names ++ [t.text]) k)
  | .afterForName names k =>
    if t.kind = .symbol .comma then .ok (.nextForName names k)
    else t.expectKeyword .in (.operand (.forValue names [] k))
  | .functionName isLocal k => t.expect .name (.functionPath isLocal t.text k)
  | .functionPath isLocal path k => shiftFunctionPath t isLocal path k
  | .functionMember isLocal path k =>
    t.expect .name (.functionPath isLocal (extendPath path t.text) k)
  | .functionMethod isLocal path k =>
    t.expect .name (.parameterList (.definition isLocal (extendPath path t.text) k))
  | .parameterList head => t.expectSymbol .openParen (.firstParameter head)
  | .firstParameter head =>
    if t.kind = .symbol .closeParen then .ok (enterFunction head [])
    else t.expect .name (.afterParameter head [t.text])
  | .nextParameter head params => t.expect .name (.afterParameter head (params ++ [t.text]))
  | .afterParameter head params =>
    if t.kind = .symbol .comma then .ok (.nextParameter head params)
    else t.expectSymbol .closeParen (enterFunction head params)

end ParserState

end LuaSyntax
