import LuaSyntax.Proofs.Lines
import LuaSyntax.Proofs.Lookahead
import LuaSyntax.Proofs.Lossless
import LuaSyntax.Proofs.ParseOnDemand
import LuaSyntax.Proofs.Relabeling

/-!
Layout means nothing. The tokens of a source can be written on one line with a space between each
two: they are found again, and read as the same program.
-/
namespace LuaSyntax

/-- The tokens of a source as they are written there, with spaces between them and nothing else. -/
def respaced (source : String) : String := " ".intercalate ((tokenize source).map Token.text)

def Token.onFirstLine (t : Token) : Token := { t with line := 1 }

/-- What a scan finds as a token somewhere. -/
def IsLexeme (x : TokenKind × List Char) : Prop := ∃ c s, Piece.scan c s = .lexeme x.1 x.2

theorem isLexeme_of_mem {s : List Char} {x : TokenKind × List Char}
    (hx : x ∈ (pieces s).flatMap Piece.lexemes) : IsLexeme x := by
  induction s using pieces_induction with
  | nil => cases hx
  | cons c s r hr ih =>
    rw [pieces_of_append hr, List.flatMap_cons, List.mem_append] at hx
    rcases hx with hx | hx
    · cases hp : Piece.scan c s with
      | lexeme kind text =>
        rw [hp] at hx
        obtain rfl : x = (kind, text) := List.mem_singleton.mp hx
        exact ⟨c, s, hp⟩
      | _ => simp [hp, Piece.lexemes] at hx
    · exact ih hx

theorem isLexeme_of_mem_tokenize {source : String} {t : Token} (h : t ∈ tokenize source) :
    IsLexeme (t.kind, t.text.toList) := by
  have hmem : (t.kind, t.text.toList) ∈ (pieces source.toList).flatMap Piece.lexemes := by
    rw [← map_tokensOf 1]
    exact List.mem_map_of_mem h
  exact isLexeme_of_mem hmem

namespace IsLexeme

variable {kind : TokenKind} {text : List Char}

/-- A token is found in its own text. -/
theorem exists_scan (h : IsLexeme (kind, text)) :
    ∃ c w, text = c :: w ∧ Piece.scan c w = .lexeme kind text := by
  obtain ⟨c, s, hscan⟩ := h
  have hne : text ≠ [] := by simpa [hscan, Piece.text] using Piece.text_scan_ne_nil c s
  have hprefix : text <+: c :: s := by simpa [hscan, Piece.text] using Piece.text_scan_prefix c s
  obtain ⟨d, w, rfl⟩ := List.exists_cons_of_ne_nil hne
  obtain ⟨rfl, -⟩ := List.cons_prefix_cons.mp hprefix
  exact ⟨d, w, rfl, Piece.scan_lexeme hscan⟩

/-- A line feed in it would end it, so there is none. -/
theorem newline_notMem (h : IsLexeme (kind, text)) : '\n' ∉ text := by
  obtain ⟨c, w, rfl, hscan⟩ := h.exists_scan
  intro hmem
  rcases List.mem_cons.mp hmem with rfl | hmem
  · cases hscan
  obtain ⟨u, v, rfl⟩ := List.append_of_mem hmem
  by_cases hopen : .unclosedComment ∈ LocatedPiece.errors (Piece.scan c u)
  · obtain ⟨r, hr⟩ : ['-', '-'] <+: c :: u := isAbout_of_mem_errors hopen
    obtain ⟨rfl, rfl⟩ := List.cons.inj hr
    exact Piece.scanComment_ne_lexeme _ hscan
  · have hshort : (Piece.scan c u).text <+: c :: u := Piece.text_scan_prefix c u
    rw [← Piece.scan_append_newline hopen v, hscan] at hshort
    have hle := hshort.length_le
    simp only [Piece.text, List.length_cons, List.length_append] at hle
    omega

theorem pieces_text (h : IsLexeme (kind, text)) : pieces text = [.lexeme kind text] := by
  obtain ⟨c, w, rfl, hscan⟩ := h.exists_scan
  have hall : (Piece.scan c w).text ++ [] = c :: w := by rw [hscan, Piece.text, List.append_nil]
  rw [pieces_of_append hall, hscan]
  rfl

theorem pieces_text_space (h : IsLexeme (kind, text)) (r : List Char) :
    pieces (text ++ ' ' :: r) = .lexeme kind text :: .blank ' ' :: pieces r := by
  obtain ⟨c, w, rfl, hscan⟩ := h.exists_scan
  have hsame : Piece.scan c (w ++ ' ' :: r) = .lexeme kind (c :: w) :=
    Piece.scan_lexeme_append_blank hscan (by decide) r
  have hfirst : (Piece.scan c (w ++ ' ' :: r)).text ++ ' ' :: r = c :: (w ++ ' ' :: r) := by
    rw [hsame, Piece.text, List.cons_append]
  have hspace : pieces (' ' :: r) = .blank ' ' :: pieces r := pieces_of_append rfl
  rw [List.cons_append, pieces_of_append hfirst, hsame, hspace]

end IsLexeme

/-- What is asked of the pieces of tokens that are written with spaces between them is asked of the
tokens, as long as the spaces give nothing. -/
theorem flatMap_pieces_intercalate {α : Type} {g : Piece → List α} (hspace : g (.blank ' ') = [])
    {xs : List (TokenKind × List Char)} (hxs : ∀ x ∈ xs, IsLexeme x) :
    (pieces ([' '].intercalate (xs.map Prod.snd))).flatMap g =
      xs.flatMap fun x => g (.lexeme x.1 x.2) := by
  induction xs with
  | nil => rfl
  | cons x xs ih =>
    obtain ⟨hx, hrest⟩ := List.forall_mem_cons.mp hxs
    cases xs with
    | nil => simp [hx.pieces_text]
    | cons y ys =>
      have htext : [' '].intercalate ((x :: y :: ys).map Prod.snd) =
          x.2 ++ ' ' :: [' '].intercalate ((y :: ys).map Prod.snd) := by
        simp [List.intercalate_cons_cons]
      rw [htext, hx.pieces_text_space, List.flatMap_cons (x := x), List.flatMap_cons,
        List.flatMap_cons, hspace, ih hrest, List.nil_append]

section

variable (source : String)

theorem toList_respaced : (respaced source).toList =
    [' '].intercalate (((pieces source.toList).flatMap Piece.lexemes).map Prod.snd) := by
  have htexts : (tokenize source).map (fun t => t.text.toList) =
      ((pieces source.toList).flatMap Piece.lexemes).map Prod.snd := by
    rw [← map_tokensOf 1, List.map_map]
    rfl
  rw [respaced, String.toList_intercalate, List.map_map, ← htexts]
  rfl

theorem flatMap_pieces_respaced {α : Type} {g : Piece → List α} (hspace : g (.blank ' ') = []) :
    (pieces (respaced source).toList).flatMap g =
      ((pieces source.toList).flatMap Piece.lexemes).flatMap fun x => g (.lexeme x.1 x.2) := by
  rw [toList_respaced]
  exact flatMap_pieces_intercalate hspace fun _ => isLexeme_of_mem

theorem newlines_respaced : newlines (respaced source) = 0 := by
  have hnone : (pieces (respaced source).toList).flatMap (fun p => p.text.filter (· == '\n')) =
      [] := by
    rw [flatMap_pieces_respaced source (by decide), List.flatMap_eq_nil_iff]
    intro x hx
    have hfree : '\n' ∉ x.2 := (isLexeme_of_mem hx).newline_notMem
    simpa [Piece.text] using fun c hc => ne_of_mem_of_not_mem hc hfree
  rw [← List.filter_flatMap, flatMap_text_pieces] at hnone
  rw [newlines, List.count_eq_length_filter, hnone, List.length_nil]

theorem line_of_mem_respaced {p : LocatedPiece} (hp : p ∈ sourcePieces (respaced source)) :
    p.line = 1 := by
  have hle : p.line ≤ 1 + newlines (respaced source) := line_le_of_mem_sourcePieces hp
  have hpos : 1 ≤ p.line := (pairwise_locate 1 _).2 p hp
  rw [newlines_respaced] at hle
  omega

theorem tokenize_respaced_eq :
    tokenize (respaced source) = (tokenize source).map Token.onFirstLine := by
  have hline : ∀ t ∈ tokenize (respaced source), t.onFirstLine = t := by
    intro t ht
    obtain ⟨p, hp, htoken⟩ := List.mem_filterMap.mp ht
    have hone : t.line = 1 := by
      rw [LocatedPiece.line_of_token? htoken, line_of_mem_respaced source hp]
    rw [Token.onFirstLine, ← hone]
  have hspellings : (tokenize (respaced source)).map (fun t => (t.kind, t.text.toList)) =
      (tokenize source).map fun t => (t.kind, t.text.toList) := by
    rw [tokenize, sourcePieces, map_tokensOf, tokenize, sourcePieces, map_tokensOf,
      flatMap_pieces_respaced source rfl]
    exact List.flatMap_singleton' _
  have hrebuild (ts : List Token) : ts.map Token.onFirstLine =
      (ts.map fun t => (t.kind, t.text.toList)).map fun x => ⟨x.1, String.ofList x.2, 1⟩ := by
    simp [Token.onFirstLine]
  calc tokenize (respaced source)
      = (tokenize (respaced source)).map Token.onFirstLine := by
        rw [List.map_congr_left hline, List.map_id']
    _ = (tokenize source).map Token.onFirstLine := by
        rw [hrebuild, hspellings, ← hrebuild]

/-- Only what is in a token is found again, and that are the escape sequences. -/
theorem errors_lexemes (p : Piece) :
    (p.lexemes.flatMap fun x => LocatedPiece.errors (.lexeme x.1 x.2)) =
      (LocatedPiece.errors p).filter (· == .invalidEscape) := by
  cases p with
  | lexeme kind text => cases kind <;> simp [Piece.lexemes, LocatedPiece.errors]
  | longComment level body closing => cases closing <;> simp [Piece.lexemes, LocatedPiece.errors]
  | _ => simp [Piece.lexemes, LocatedPiece.errors]

theorem diagnose_respaced : diagnose (respaced source) =
    List.replicate (((diagnose source).map Diagnostic.error).count .invalidEscape)
      ⟨.invalidEscape, 1⟩ := by
  have hline : ∀ d ∈ diagnose (respaced source), (⟨d.error, 1⟩ : Diagnostic) = d := by
    intro d hd
    obtain ⟨p, hp, hd⟩ := List.mem_flatMap.mp hd
    rw [← line_of_mem_respaced source hp, ← (LocatedPiece.mem_diagnostics.mp hd).2]
  have herrors : (diagnose (respaced source)).map Diagnostic.error =
      ((diagnose source).map Diagnostic.error).filter (· == .invalidEscape) := by
    rw [diagnose, sourcePieces, map_diagnosticsOf, diagnose, sourcePieces, map_diagnosticsOf,
      flatMap_pieces_respaced source rfl, List.flatMap_assoc, List.filter_flatMap]
    simp only [errors_lexemes]
  calc diagnose (respaced source)
      = ((diagnose (respaced source)).map Diagnostic.error).map fun e => ⟨e, 1⟩ := by
        rw [List.map_map, Function.comp_def, List.map_congr_left hline, List.map_id']
    _ = _ := by rw [herrors, List.filter_beq, List.map_replicate]

theorem parse_onFirstLine (ts : List Token) (p : Program) :
    parse (ts.map Token.onFirstLine) = .ok p ↔ parse ts = .ok p := by
  have hrelabel : parse (ts.map Token.onFirstLine) =
      (parse ts).mapError (SyntaxError.relabel ⟨fun _ => 1, fun _ text => text⟩) :=
    parse_relabel ⟨fun _ => 1, fun _ text => text⟩ fun _ _ _ => rfl
  rw [hrelabel]
  cases parse ts with
  | error e => exact ⟨nofun, nofun⟩
  | ok q => exact .rfl

/-- Written on one line with spaces between them, the tokens of a source are the same but for their
lines, the errors left are those in them, and the source is read as a program if and only if it was
read as this one before. -/
theorem tokenize_respaced (log : Log) :
    tokenize (respaced source) = (tokenize source).map Token.onFirstLine ∧
      diagnose (respaced source) =
        List.replicate (((diagnose source).map Diagnostic.error).count .invalidEscape)
          ⟨.invalidEscape, 1⟩ ∧
      ∀ p, (parseInto log (respaced source)).1 = .ok p ↔ (parseInto log source).1 = .ok p := by
  refine ⟨tokenize_respaced_eq source, diagnose_respaced source, fun p => ?_⟩
  rw [result_parseInto, result_parseInto, tokenize_respaced_eq]
  exact parse_onFirstLine (tokenize source) p

end

end LuaSyntax
