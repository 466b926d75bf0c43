import LuaSyntax.Proofs.Lines
import LuaSyntax.Proofs.Lookahead
import LuaSyntax.Proofs.Lossless

/-!
A line feed cuts a source in two. Unless it is in a long comment, what stands before it is scanned
as if the text ended there, and what stands behind it as if the text began there; only the lines go
on from one part to the other.
-/
namespace LuaSyntax

/-- The token with some lines more in front of it. -/
def Token.addLines (n : Nat) (t : Token) : Token := { t with line := t.line + n }

def Diagnostic.addLines (n : Nat) (d : Diagnostic) : Diagnostic := { d with line := d.line + n }

theorem pieces_append_newline {s : List Char}
    (h : .unclosedComment ∉ (pieces s).flatMap LocatedPiece.errors) (t : List Char) :
    pieces (s ++ '\n' :: t) = pieces s ++ .blank '\n' :: pieces t := by
  induction s using pieces_induction with
  | nil => exact pieces_of_append rfl
  | cons c s r hr ih =>
    rw [pieces_of_append hr, List.flatMap_cons, List.mem_append, not_or] at h
    have hscan : Piece.scan c (s ++ '\n' :: t) = Piece.scan c s := Piece.scan_append_newline h.1 t
    have hrest : (Piece.scan c (s ++ '\n' :: t)).text ++ (r ++ '\n' :: t) =
        c :: (s ++ '\n' :: t) := by
      rw [hscan, ← List.append_assoc, hr, List.cons_append]
    rw [List.cons_append, pieces_of_append hrest, hscan, ih h.2, pieces_of_append hr,
      List.cons_append]

theorem locate_append (line : Nat) (ps qs : List Piece) : locate line (ps ++ qs) =
    locate line ps ++ locate (line + (ps.flatMap Piece.text).count '\n') qs := by
  induction ps generalizing line with
  | nil => rfl
  | cons p ps ih =>
    rw [List.cons_append, locate, ih, locate, List.flatMap_cons, List.count_append, ← Nat.add_assoc]
    rfl

theorem tokensOf_locate_add (line n : Nat) (ps : List Piece) :
    tokensOf (locate (line + n) ps) = (tokensOf (locate line ps)).map (Token.addLines n) := by
  induction ps generalizing line with
  | nil => rfl
  | cons p ps ih =>
    have hp : (LocatedPiece.token? ⟨line + n, p⟩).toList =
        (LocatedPiece.token? ⟨line, p⟩).toList.map (Token.addLines n) := by
      cases p <;> rfl
    rw [locate, locate, tokensOf_cons, tokensOf_cons, List.map_append, hp, ← ih,
      Nat.add_right_comm]

theorem diagnosticsOf_locate_add (line n : Nat) (ps : List Piece) :
    diagnosticsOf (locate (line + n) ps) =
      (diagnosticsOf (locate line ps)).map (Diagnostic.addLines n) := by
  induction ps generalizing line with
  | nil => rfl
  | cons p ps ih =>
    have hp : LocatedPiece.diagnostics ⟨line + n, p⟩ =
        (LocatedPiece.diagnostics ⟨line, p⟩).map (Diagnostic.addLines n) := by
      simp [LocatedPiece.diagnostics, Function.comp_def, Diagnostic.addLines]
    rw [locate, locate, diagnosticsOf_cons, diagnosticsOf_cons, List.map_append, hp, ← ih,
      Nat.add_right_comm]

theorem sourcePieces_append_newline {s : String}
    (h : ∀ d ∈ diagnose s, d.error ≠ .unclosedComment) (t : String) :
    sourcePieces (s ++ "\n" ++ t) = sourcePieces s ++ ⟨1 + newlines s, .blank '\n'⟩ ::
      locate (1 + (1 + newlines s)) (pieces t.toList) := by
  have hclosed : .unclosedComment ∉ (pieces s.toList).flatMap LocatedPiece.errors := by
    rw [← map_diagnosticsOf 1, List.mem_map]
    rintro ⟨d, hd, herror⟩
    exact h d hd herror
  have htext : (s ++ "\n" ++ t).toList = s.toList ++ '\n' :: t.toList := by simp
  have hbehind : 1 + newlines s + 1 = 1 + (1 + newlines s) := Nat.add_comm _ 1
  rw [sourcePieces, htext, pieces_append_newline hclosed, locate_append, flatMap_text_pieces,
    locate, sourcePieces, ← hbehind]
  rfl

/-- The tokens and the errors of two texts with a line feed between them are those of the first and
those of the second, some lines further down, as long as the first leaves no comment open. -/
theorem tokenize_append_newline (s t : String) (h : ∀ d ∈ diagnose s, d.error ≠ .unclosedComment) :
    tokenize (s ++ "\n" ++ t) =
        tokenize s ++ (tokenize t).map (Token.addLines (1 + newlines s)) ∧
      diagnose (s ++ "\n" ++ t) =
        diagnose s ++ (diagnose t).map (Diagnostic.addLines (1 + newlines s)) := by
  have hpieces := sourcePieces_append_newline h t
  constructor
  · calc tokenize (s ++ "\n" ++ t)
        = tokensOf (sourcePieces s) ++
            tokensOf (locate (1 + (1 + newlines s)) (pieces t.toList)) := by
          rw [tokenize, hpieces, tokensOf, List.filterMap_append]
          rfl
      _ = tokenize s ++ (tokenize t).map (Token.addLines (1 + newlines s)) := by
          rw [tokensOf_locate_add]
          rfl
  · calc diagnose (s ++ "\n" ++ t)
        = diagnosticsOf (sourcePieces s) ++
            diagnosticsOf (locate (1 + (1 + newlines s)) (pieces t.toList)) := by
          rw [diagnose, hpieces, diagnosticsOf, List.flatMap_append]
          rfl
      _ = diagnose s ++ (diagnose t).map (Diagnostic.addLines (1 + newlines s)) := by
          rw [diagnosticsOf_locate_add]
          rfl

/-- A string that is not closed, and ends in a backslash, before a line that would close it. -/
theorem tokenize_append_newline_unfinished :
    (∀ d ∈ diagnose "x = 'it\\", d.error ≠ .unclosedComment) ∧
      tokenize ("x = 'it\\" ++ "\n" ++ "n' --[==") = tokenize "x = 'it\\" ++
        (tokenize "n' --[==").map (Token.addLines (1 + newlines "x = 'it\\")) := by
  have hclosed : ∀ d ∈ diagnose "x = 'it\\", d.error ≠ .unclosedComment := by
    decide +kernel
  exact ⟨hclosed, (tokenize_append_newline _ _ hclosed).1⟩

end LuaSyntax
