import LuaSyntax.Proofs.Scan
import LuaSyntax.Source.Reading

/-!
Nothing is lost in scanning. A source is the texts of its tokens with what is skipped between them,
and only a few kinds of text are skipped; every lexical error is about one of these or about an
escape sequence in a string.
-/
namespace LuaSyntax

/-- A character that something other than an error begins with. -/
def BeginsPiece (c : Char) : Prop :=
  isBlank c = true ∨ StringLiteral.IsQuote c ∨ c.isDigit = true ∨ isWordStart c = true ∨
    ∃ y : Symbol, y.chars.head? = some c

/-- A text that is skipped where the rest comes after it, and the errors that are found in it. -/
inductive Skips : List Char → List Char → List LexicalError → Prop
  | blank {c : Char} {rest : List Char} : c ∈ [' ', '\t', '\r', '\n'] → Skips [c] rest []
  | lineComment {body rest : List Char} :
      '\n' ∉ body → (∀ c ∈ rest.head?, c = '\n') →
      (∀ level, ¬ longBracket '[' level <+: body ++ rest) → Skips ('-' :: '-' :: body) rest []
  | longComment {level closing : Nat} {body rest : List Char} :
      (∀ u other v, body ++ longBracket ']' closing ++ rest = u ++ longBracket ']' other ++ v →
        body.length ≤ u.length) →
      Skips ('-' :: '-' :: (longBracket '[' level ++ body ++ longBracket ']' closing)) rest []
  | unclosedComment {level : Nat} {body : List Char} :
      (∀ closing, ¬ longBracket ']' closing <:+: body) →
      Skips ('-' :: '-' :: (longBracket '[' level ++ body)) [] [.unclosedComment]
  | loneTilde {rest : List Char} :
      rest.head? ≠ some '=' → Skips ['~'] rest [.illegalCharacter '~']
  | illegal {c : Char} {rest : List Char} : ¬ BeginsPiece c → Skips [c] rest [.illegalCharacter c]
  | openQuote {q : Char} {rest : List Char} :
      StringLiteral.IsQuote q → (∀ body, StringLiteral.Body q body → ¬ body <+: rest) →
      Skips [q] rest [.unclosedString]

/-- A text that falls into these tokens and what is skipped between them, and the errors that are
found in it. -/
inductive Lexes : List Char → List (TokenKind × List Char) → List LexicalError → Prop
  | done : Lexes [] [] []
  | skip {text rest : List Char} {ts : List (TokenKind × List Char)} {es fs : List LexicalError} :
      Skips text rest es → Lexes rest ts fs → Lexes (text ++ rest) ts (es ++ fs)
  | string {q : Char} {body rest : List Char} {ts : List (TokenKind × List Char)}
      {es : List LexicalError} :
      StringLiteral.IsQuote q → StringLiteral.Body q body → Lexes rest ts es →
      Lexes (q :: body ++ rest) ((.string, q :: body) :: ts)
        (List.replicate (StringLiteral.invalidEscapes body) .invalidEscape ++ es)
  | token {kind : TokenKind} {text rest : List Char} {ts : List (TokenKind × List Char)}
      {es : List LexicalError} :
      kind ≠ .string → text ≠ [] → Lexes rest ts es →
      Lexes (text ++ rest) ((kind, text) :: ts) es

/-- Only the tilde begins no symbol by itself. -/
theorem Symbol.exists_single {c : Char} {y : Symbol} (hc : c ≠ '~') (hy : y.chars.head? = some c) :
    ∃ z : Symbol, z.chars = [c] := by
  have hsingle : ∀ y : Symbol, y ≠ .notEqual → ∃ z ∈ all, z.chars = y.chars.take 1 := by
    intro y hy
    cases y <;> first | decide | exact absurd rfl hy
  obtain ⟨r, hr⟩ := List.head?_eq_some_iff.mp hy
  obtain ⟨z, -, hz⟩ := hsingle y fun h => hc (by simpa [h, chars] using hy.symm)
  exact ⟨z, by simpa [hr] using hz⟩

namespace Piece

def lexemes : Piece → List (TokenKind × List Char)
  | lexeme kind text => [(kind, text)]
  | _ => []

/-- A text that begins with this piece is scanned as the piece and then the rest. -/
def Begins (p : Piece) (rest : List Char) : Prop :=
  ∀ ts es, Lexes rest ts es → Lexes (p.text ++ rest) (p.lexemes ++ ts) (LocatedPiece.errors p ++ es)

variable {p : Piece} {c q : Char} {s rest : List Char}

theorem begins_of_skips (h : Skips p.text rest (LocatedPiece.errors p)) (hp : p.lexemes = []) :
    p.Begins rest := by
  intro ts es hrest
  rw [hp]
  exact .skip h hrest

theorem begins_token {kind : TokenKind} {text : List Char} (hkind : kind ≠ .string)
    (htext : text ≠ []) : (Piece.lexeme kind text).Begins rest := by
  intro ts es hrest
  have herrors : LocatedPiece.errors (.lexeme kind text) = [] := by
    cases kind <;> first | rfl | exact absurd rfl hkind
  rw [herrors]
  exact .token hkind htext hrest

theorem begins_longComment {level : Nat}
    (h : (longComment level (scanLongComment s).1 (scanLongComment s).2).text ++ rest =
      '-' :: '-' :: (longBracket '[' level ++ s)) :
    (longComment level (scanLongComment s).1 (scanLongComment s).2).Begins rest := by
  have hs : (scanLongComment s).1 ++ ((scanLongComment s).2.map (longBracket ']')).getD [] ++ rest =
      s := by
    simpa [text] using h
  refine begins_of_skips ?_ rfl
  cases hclosing : (scanLongComment s).2 with
  | some closing =>
    rw [hclosing] at hs
    refine .longComment fun u other v huv => ?_
    exact (scanLongComment_first (hs.symm.trans huv)).1
  | none =>
    obtain ⟨r, hr, hend⟩ := scanLongComment_append s
    obtain rfl := hend hclosing
    have hbody : (scanLongComment s).1 = s := by simpa [hclosing] using hr.symm
    obtain rfl : rest = [] := by simpa [hclosing, hbody] using hs
    rw [text, Option.map_none, Option.getD_none, List.append_nil]
    refine .unclosedComment fun closing hin => ?_
    obtain ⟨u, v, huv⟩ := hin
    exact (scanLongComment_first (huv.trans hbody).symm).2 hclosing

theorem begins_lineComment (hlong : longBracketLevel? '[' s = none)
    (h : (lineComment (s.takeWhile (· ≠ '\n'))).text ++ rest = '-' :: '-' :: s) :
    (lineComment (s.takeWhile (· ≠ '\n'))).Begins rest := by
  have hs : s.takeWhile (· ≠ '\n') ++ rest = s := by simpa [text] using h
  refine begins_of_skips (.lineComment ?_ ?_ ?_) rfl
  · intro hmem
    simpa using List.all_eq_true.mp List.all_takeWhile _ hmem
  · have hrest : rest = s.dropWhile (· ≠ '\n') :=
      List.append_cancel_left (hs.trans List.takeWhile_append_dropWhile.symm)
    intro c hc
    have hstop := List.head?_dropWhile_not (· ≠ '\n') s
    rw [← hrest, hc] at hstop
    simpa using hstop
  · rw [hs]
    exact (longBracketLevel?_eq_none (by decide)).mp hlong

theorem begins_scanComment (h : (scanComment s).text ++ rest = '-' :: '-' :: s) :
    (scanComment s).Begins rest := by
  unfold scanComment at h ⊢
  split at h
  · rename_i level hlevel
    obtain ⟨r, rfl⟩ := longBracket_prefix hlevel
    rw [drop_longBracket] at h ⊢
    exact begins_longComment h
  · rename_i hlong
    exact begins_lineComment hlong h

theorem begins_scanString (hq : StringLiteral.IsQuote q)
    (h : (scanString q s).text ++ rest = q :: s) : (scanString q s).Begins rest := by
  unfold scanString at h ⊢
  split at h
  · rename_i body hbody
    intro ts es hrest
    have hlexes := Lexes.string hq (StringLiteral.body_of_scanBody? hq hbody).1 hrest
    rw [← StringLiteral.invalidEscapes_plain hq.ne_backslash] at hlexes
    exact hlexes
  · rename_i hnone
    obtain rfl : rest = s := by simpa [text] using h
    exact begins_of_skips (.openQuote hq ((StringLiteral.scanBody?_eq_none hq).mp hnone)) rfl

theorem begins_scanSymbol (hblank : isBlank c = false) (hquote : ¬ StringLiteral.IsQuote c)
    (hdigit : c.isDigit = false) (hword : isWordStart c = false)
    (h : (scanSymbol c s).text ++ rest = c :: s) : (scanSymbol c s).Begins rest := by
  unfold scanSymbol at h ⊢
  split at h
  · rename_i y hy
    exact begins_token nofun y.chars_ne_nil
  · rename_i hnone
    obtain rfl : rest = s := by simpa [text] using h
    refine begins_of_skips ?_ rfl
    by_cases htilde : c = '~'
    · subst htilde
      refine .loneTilde fun hhead => ?_
      obtain ⟨r, rfl⟩ := List.head?_eq_some_iff.mp hhead
      exact Symbol.not_chars_prefix hnone .notEqual ⟨r, rfl⟩
    · refine .illegal ?_
      rintro (hb | hq | hd | hw | ⟨y, hy⟩)
      · simp [hblank] at hb
      · exact hquote hq
      · simp [hdigit] at hd
      · simp [hword] at hw
      · obtain ⟨z, hz⟩ := Symbol.exists_single htilde hy
        exact Symbol.not_chars_prefix hnone z (by simp [hz])

theorem begins_scan (h : (scan c s).text ++ rest = c :: s) : (scan c s).Begins rest := by
  have hne := text_scan_ne_nil c s
  revert h hne
  refine scan_cases (motive := fun p => p.text ++ rest = c :: s → p.text ≠ [] → p.Begins rest) c s
    ?blank ?comment ?string ?number ?word ?symbol
  case blank =>
    intro hc _ _
    exact begins_of_skips (.blank (by simpa [isBlank, or_assoc] using hc)) rfl
  case comment =>
    rintro r rfl rfl h _
    exact begins_scanComment h
  case string => exact fun hq h _ => begins_scanString hq h
  case number => exact fun _ _ hne => begins_token nofun hne
  case word =>
    intro _ _ hne
    unfold scanWord at hne ⊢
    dsimp only at hne ⊢
    split at hne <;> exact begins_token nofun hne
  case symbol =>
    intro hblank hquote hdigit hword h _
    exact begins_scanSymbol hblank hquote hdigit hword h

end Piece

theorem lexes_pieces (s : List Char) :
    Lexes s ((pieces s).flatMap Piece.lexemes) ((pieces s).flatMap LocatedPiece.errors) := by
  induction s using pieces_induction with
  | nil => exact .done
  | cons c s r h ih =>
    rw [pieces_of_append h, List.flatMap_cons, List.flatMap_cons, ← h]
    exact Piece.begins_scan h _ _ ih

theorem map_tokensOf (line : Nat) (ps : List Piece) :
    (tokensOf (locate line ps)).map (fun t => (t.kind, t.text.toList)) =
      ps.flatMap Piece.lexemes := by
  induction ps generalizing line with
  | nil => rfl
  | cons p ps ih =>
    have hp : (LocatedPiece.token? ⟨line, p⟩).toList.map (fun t => (t.kind, t.text.toList)) =
        p.lexemes := by
      cases p <;> simp [LocatedPiece.token?, Piece.lexemes]
    rw [locate, tokensOf_cons, List.map_append, hp, ih, List.flatMap_cons]

theorem map_diagnosticsOf (line : Nat) (ps : List Piece) :
    (diagnosticsOf (locate line ps)).map Diagnostic.error = ps.flatMap LocatedPiece.errors := by
  induction ps generalizing line with
  | nil => rfl
  | cons p ps ih =>
    rw [locate, diagnosticsOf_cons, List.map_append, ih, List.flatMap_cons]
    simp [LocatedPiece.diagnostics, Function.comp_def]

/-- A source is, piece by piece, its tokens and what is skipped between them, and its lexical errors
are those of the pieces in the same order. -/
theorem tokenize_lossless (source : String) :
    Lexes source.toList ((tokenize source).map fun t => (t.kind, t.text.toList))
      ((diagnose source).map Diagnostic.error) := by
  rw [tokenize, diagnose, sourcePieces, map_tokensOf, map_diagnosticsOf]
  exact lexes_pieces source.toList

end LuaSyntax
