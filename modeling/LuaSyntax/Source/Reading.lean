import LuaSyntax.Diagnostic
import LuaSyntax.Source.Scan

/-!
A source read through: each piece with the line it starts on, and from these the tokens and the
lexical errors. Errors are reported as far as the source has been read.
-/
namespace LuaSyntax

structure LocatedPiece where
  line : Nat
  piece : Piece
deriving DecidableEq

def locate : Nat → List Piece → List LocatedPiece
  | _, [] => []
  | line, p :: ps => ⟨line, p⟩ :: locate (line + p.newlines) ps

namespace LocatedPiece

def token? (p : LocatedPiece) : Option Token :=
  match p.piece with
  | .lexeme kind text => some ⟨kind, String.ofList text, p.line⟩
  | _ => none

def errors : Piece → List LexicalError
  | .illegal c => [.illegalCharacter c]
  | .openQuote _ => [.unclosedString]
  | .longComment _ _ none => [.unclosedComment]
  | .lexeme .string text => List.replicate (StringLiteral.invalidEscapes text) .invalidEscape
  | _ => []

def diagnostics (p : LocatedPiece) : List Diagnostic := (errors p.piece).map fun e => ⟨e, p.line⟩

end LocatedPiece

/-- The pieces of a source, from line 1 on. -/
def sourcePieces (source : String) : List LocatedPiece := locate 1 (pieces source.toList)

def tokensOf (ps : List LocatedPiece) : List Token := ps.filterMap LocatedPiece.token?

def diagnosticsOf (ps : List LocatedPiece) : List Diagnostic := ps.flatMap LocatedPiece.diagnostics

theorem tokensOf_cons (p : LocatedPiece) (ps : List LocatedPiece) :
    tokensOf (p :: ps) = p.token?.toList ++ tokensOf ps := by
  cases h : p.token? <;> simp [tokensOf, h]

theorem diagnosticsOf_cons (p : LocatedPiece) (ps : List LocatedPiece) :
    diagnosticsOf (p :: ps) = p.diagnostics ++ diagnosticsOf ps := List.flatMap_cons

def tokenize (source : String) : List Token := tokensOf (sourcePieces source)

def diagnose (source : String) : List Diagnostic := diagnosticsOf (sourcePieces source)

/-- What has been read when the `n`th token is found, or all if there are fewer. -/
def throughToken : Nat → List LocatedPiece → List LocatedPiece
  | 0, _ => []
  | _, [] => []
  | n + 1, p :: ps => p :: throughToken (if p.token?.isSome then n else n + 1) ps

/-- The first `n` tokens, and nothing where there are fewer. -/
def takeTokens (n : Nat) (ps : List LocatedPiece) : List (Option Token) :=
  let ts := tokensOf (throughToken n ps)
  ts.map some ++ List.replicate (n - ts.length) none

@[simp] theorem throughToken_nil (n : Nat) : throughToken n [] = [] := by
  cases n <;> rfl

theorem throughToken_cons_some {p : LocatedPiece} {t : Token} (h : p.token? = some t) (n : Nat)
    (ps : List LocatedPiece) : throughToken (n + 1) (p :: ps) = p :: throughToken n ps := by
  simp [throughToken, h]

theorem throughToken_cons_none {p : LocatedPiece} (h : p.token? = none) (n : Nat)
    (ps : List LocatedPiece) :
    throughToken (n + 1) (p :: ps) = p :: throughToken (n + 1) ps := by
  simp [throughToken, h]

theorem throughToken_prefix (n : Nat) (ps : List LocatedPiece) : throughToken n ps <+: ps := by
  induction ps generalizing n with
  | nil => simp
  | cons p ps ih =>
    cases n with
    | zero => exact List.nil_prefix
    | succ n => exact List.cons_prefix_cons.mpr ⟨rfl, ih _⟩

theorem diagnosticsOf_prefix {ps qs : List LocatedPiece} (h : ps <+: qs) :
    diagnosticsOf ps <+: diagnosticsOf qs := by
  obtain ⟨rs, rfl⟩ := h
  exact ⟨diagnosticsOf rs, List.flatMap_append.symm⟩

theorem tokensOf_throughToken (n : Nat) (ps : List LocatedPiece) :
    tokensOf (throughToken n ps) = (tokensOf ps).take n := by
  induction ps generalizing n with
  | nil => simp [tokensOf]
  | cons p ps ih =>
    cases n with
    | zero => rfl
    | succ n =>
      cases ht : p.token? with
      | some t => simp [throughToken_cons_some ht, tokensOf_cons, ht, ih]
      | none => simp [throughToken_cons_none ht, tokensOf_cons, ht, ih]

/-- All is read when more tokens are asked for than there are. -/
theorem throughToken_of_lt {n : Nat} {ps : List LocatedPiece} (h : (tokensOf ps).length < n) :
    throughToken n ps = ps := by
  induction ps generalizing n with
  | nil => exact throughToken_nil n
  | cons p ps ih =>
    obtain ⟨n, rfl⟩ := Nat.exists_eq_add_one_of_ne_zero (Nat.ne_zero_of_lt h)
    cases ht : p.token? with
    | some t =>
      rw [throughToken_cons_some ht, ih]
      simpa [tokensOf_cons, ht] using h
    | none =>
      rw [throughToken_cons_none ht, ih]
      simpa [tokensOf_cons, ht] using h

theorem takeTokens_eq (n : Nat) (ps : List LocatedPiece) : takeTokens n ps =
    ((tokensOf ps).take n).map some ++ List.replicate (n - (tokensOf ps).length) none := by
  have hcount : n - min n (tokensOf ps).length = n - (tokensOf ps).length := by omega
  rw [takeTokens, tokensOf_throughToken, List.length_take, hcount]

theorem takeTokens_nil (n : Nat) : takeTokens n [] = List.replicate n none := by
  simp [takeTokens, tokensOf]

theorem takeTokens_cons_some {p : LocatedPiece} {t : Token} (h : p.token? = some t) (n : Nat)
    (ps : List LocatedPiece) : takeTokens (n + 1) (p :: ps) = some t :: takeTokens n ps := by
  simp [takeTokens, throughToken_cons_some h, tokensOf_cons, h]

theorem takeTokens_cons_none {p : LocatedPiece} (h : p.token? = none) (n : Nat)
    (ps : List LocatedPiece) : takeTokens (n + 1) (p :: ps) = takeTokens (n + 1) ps := by
  simp [takeTokens, throughToken_cons_none h, tokensOf_cons, h]

end LuaSyntax
