import LuaSyntax.Proofs.Grammar
import LuaSyntax.Proofs.ParseOnDemand

/-!
A source that assigns a literal to a name. It is read as the assignment of what the literal stands
for, and the only errors in it are those of the literal.
-/
namespace LuaSyntax

variable {c : Char} {w : List Char} {kind : TokenKind} {e : Expr}

/-- The program that gives a value to the name `x`. -/
def assigned (e : Expr) : Program := [.assign (.assignment false [.var "x"] [e])]

theorem pieces_assigned (h : Piece.scan c w = .lexeme kind (c :: w)) :
    pieces ('x' :: ' ' :: '=' :: ' ' :: c :: w) =
      [.lexeme .name ['x'], .blank ' ', .lexeme (.symbol .assign) ['='], .blank ' ',
        .lexeme kind (c :: w)] := by
  have hlast : pieces (c :: w) = [.lexeme kind (c :: w)] := by
    rw [pieces_of_append (r := []) (by rw [h]; simp [Piece.text]), h]
    rfl
  calc pieces ('x' :: ' ' :: '=' :: ' ' :: c :: w)
      = [.lexeme .name ['x'], .blank ' ', .lexeme (.symbol .assign) ['='], .blank ' '] ++
          pieces (c :: w) := rfl
    _ = _ := by rw [hlast]; rfl

theorem shiftOperand_literal {t : Token} (h : t.literal? = some e) (k : ExprContext) :
    ParserState.shiftOperand t k = .ok (.operator e k) := by
  unfold Token.literal? at h
  split at h <;> simp_all [ParserState.shiftOperand]

theorem parse_assigned {t : Token} (h : t.literal? = some e) :
    parse [⟨.name, "x", 1⟩, ⟨.symbol .assign, "=", 1⟩, t] = .ok (assigned e) := by
  let k : ExprContext := .assigned false [.var "x"] 1 [] (.new .program)
  calc parse [⟨.name, "x", 1⟩, ⟨.symbol .assign, "=", 1⟩, t]
      = ((ParserState.shiftOperand t k).bind (·.run .equal [])).bind (·.finish .equal) := rfl
    _ = .ok (assigned e) := by
      rw [shiftOperand_literal h]
      rfl

theorem parseInto_assigned (hscan : Piece.scan c w = .lexeme kind (c :: w))
    (hliteral : Token.literal? ⟨kind, String.ofList (c :: w), 1⟩ = some e) (log : Log) :
    parseInto log ("x = " ++ String.ofList (c :: w)) = (.ok (assigned e),
      log.reportAll (LocatedPiece.diagnostics ⟨1, .lexeme kind (c :: w)⟩)) := by
  generalize hsource : "x = " ++ String.ofList (c :: w) = source
  have hpieces : sourcePieces source =
      [⟨1, .lexeme .name ['x']⟩, ⟨1, .blank ' '⟩, ⟨1, .lexeme (.symbol .assign) ['=']⟩,
        ⟨1, .blank ' '⟩, ⟨1, .lexeme kind (c :: w)⟩] := by
    have htext : source.toList = 'x' :: ' ' :: '=' :: ' ' :: c :: w := by simp [← hsource]
    rw [sourcePieces, htext, pieces_assigned hscan]
    rfl
  have htokens : tokenize source =
      [⟨.name, "x", 1⟩, ⟨.symbol .assign, "=", 1⟩, ⟨kind, String.ofList (c :: w), 1⟩] := by
    rw [tokenize, hpieces]
    rfl
  have herrors : diagnose source = LocatedPiece.diagnostics ⟨1, .lexeme kind (c :: w)⟩ := by
    rw [diagnose, hpieces]
    simp [diagnosticsOf, LocatedPiece.diagnostics, LocatedPiece.errors]
  have hresult : (parseInto log source).1 = .ok (assigned e) := by
    rw [result_parseInto, htokens, parse_assigned hliteral]
  have hread := (readsOnDemand source log).complete (.inl ⟨_, hresult⟩)
  rw [herrors] at hread
  exact Prod.ext hresult hread

end LuaSyntax
