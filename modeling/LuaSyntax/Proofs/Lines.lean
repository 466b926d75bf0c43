import LuaSyntax.Proofs.OnDemand

/-!
Lines. Wherever a lexer stands, its line is one more than the line feeds behind it, also where it
has gone back to an opening quote; so a token has the line of its first character, and an error that
of the character it is about.
-/
namespace LuaSyntax

def newlines (s : String) : Nat := s.toList.count '\n'

/-- What stands at the front of the text that an error is about. -/
def LexicalError.IsAbout : LexicalError → List Char → Prop
  | illegalCharacter c, s => s.head? = some c
  | unclosedComment, s => ['-', '-'] <+: s
  | invalidEscape, s | unclosedString, s => ∃ q ∈ s.head?, StringLiteral.IsQuote q

/-- A lexer of this source that has been asked for some number of tokens. -/
def Lexer.ReadsFrom (x : Lexer) (source : String) : Prop :=
  ∃ log n, ((Lexer.start source log).pull n).2 = x

structure TracksLines (source : String) : Prop where
  /-- A lexer stands between two characters, on a line that 32 bits can count. -/
  place (x : Lexer) : x.ReadsFrom source → ∃ before after : String, source = before ++ after ∧
    x.cursor.offset = before.utf8ByteSize ∧ x.cursor.line = 1 + newlines before ∧
    x.cursor.line < Nat.pow 2 32
  forward (x : Lexer) : x.ReadsFrom source → x.cursor.offset ≤ x.next.2.cursor.offset
  /-- The token that a lexer gives is the text just before the place it has come to. -/
  token (x y : Lexer) (t : Token) : x.ReadsFrom source → x.next = (some t, y) →
    ∃ before after : String, source = before ++ t.text ++ after ∧
      y.cursor.offset = (before ++ t.text).utf8ByteSize ∧ t.line = 1 + newlines before
  /-- The errors that a lexer reports are about what it has moved over. -/
  report (x y : Lexer) (t? : Option Token) : x.ReadsFrom source → x.next = (t?, y) →
    ∃ ds, y.log = x.log.reportAll ds ∧ ∀ d ∈ ds, ∃ before rest : String, source = before ++ rest ∧
      x.cursor.offset ≤ before.utf8ByteSize ∧ before.utf8ByteSize < y.cursor.offset ∧
      d.error.IsAbout rest.toList ∧ d.line = 1 + newlines before
  /-- The errors of a piece are about what it begins with. -/
  error (ps qs : List LocatedPiece) (p : LocatedPiece) : sourcePieces source = ps ++ p :: qs →
    ∃ before rest : String, source = before ++ rest ∧ before.toList = textOf ps ∧
      ∀ d ∈ p.diagnostics, d.error.IsAbout rest.toList ∧ d.line = 1 + newlines before
  tokens_sorted : ((tokenize source).map Token.line).Pairwise (· ≤ ·)
  errors_sorted : ((diagnose source).map Diagnostic.line).Pairwise (· ≤ ·)
  tokens_le : ∀ t ∈ tokenize source, t.line ≤ 1 + newlines source
  errors_le : ∀ d ∈ diagnose source, d.line ≤ 1 + newlines source

theorem textOf_cons (p : LocatedPiece) (ps : List LocatedPiece) :
    textOf (p :: ps) = p.piece.text ++ textOf ps := List.flatMap_cons

theorem textOf_append (ps qs : List LocatedPiece) :
    textOf (ps ++ qs) = textOf ps ++ textOf qs := List.flatMap_append

theorem textOf_locate (line : Nat) (ps : List Piece) :
    textOf (locate line ps) = ps.flatMap Piece.text := by
  induction ps generalizing line with
  | nil => rfl
  | cons p ps ih => rw [locate, textOf_cons, ih, List.flatMap_cons]

theorem byteLength_textOf_lt (ps qs : List LocatedPiece) {p : LocatedPiece}
    (hp : p.piece.text ≠ []) : byteLength (textOf ps) < byteLength (textOf (ps ++ p :: qs)) := by
  have hpos := byteLength_pos hp
  rw [textOf_append, textOf_cons, byteLength_append, byteLength_append]
  omega

/-- A piece among those of a text is found where it stands, on the line of the text before it. -/
theorem locate_split {s : List Char} {line : Nat} {ps qs : List LocatedPiece} {p : LocatedPiece}
    (h : locate line (pieces s) = ps ++ p :: qs) : ∃ c r, s = textOf ps ++ c :: r ∧
      p = ⟨line + (textOf ps).count '\n', Piece.scan c r⟩ := by
  induction s using pieces_induction generalizing line ps with
  | nil => simp [pieces, piecesAfter, locate] at h
  | cons c s r hr ih =>
    rw [pieces_of_append hr, locate] at h
    cases ps with
    | nil =>
      obtain ⟨rfl, rfl⟩ := List.cons.inj h
      exact ⟨c, s, rfl, rfl⟩
    | cons q ps =>
      obtain ⟨rfl, hrest⟩ := List.cons.inj h
      obtain ⟨d, t, hd, rfl⟩ := ih hrest
      refine ⟨d, t, ?_, ?_⟩
      · rw [textOf_cons, List.append_assoc, ← hd, hr]
      · rw [textOf_cons, List.count_append, Nat.add_assoc]
        rfl

/-- The first token is that of some piece, and reading stops behind it. -/
theorem throughToken_one {ps : List LocatedPiece} {t : Token} (h : (tokensOf ps).head? = some t) :
    ∃ qs p rs, ps = qs ++ p :: rs ∧ p.token? = some t ∧ throughToken 1 ps = qs ++ [p] := by
  induction ps with
  | nil => cases h
  | cons p ps ih =>
    rw [tokensOf_cons] at h
    cases ht : p.token? with
    | some u =>
      obtain rfl : u = t := by simpa [ht] using h
      exact ⟨[], p, ps, rfl, ht, by simp [throughToken, ht]⟩
    | none =>
      obtain ⟨qs, q, rs, rfl, hq, hthrough⟩ := ih (by simpa [ht] using h)
      exact ⟨p :: qs, q, rs, rfl, hq, by rw [throughToken_cons_none ht, hthrough]; rfl⟩

theorem pairwise_locate (line : Nat) (ps : List Piece) :
    (locate line ps).Pairwise (·.line ≤ ·.line) ∧ ∀ p ∈ locate line ps, line ≤ p.line := by
  induction ps generalizing line with
  | nil => simp [locate]
  | cons p ps ih =>
    obtain ⟨hsorted, hle⟩ := ih (line + p.newlines)
    have hrest : ∀ q ∈ locate (line + p.newlines) ps, line ≤ q.line := fun q hq =>
      Nat.le_trans (Nat.le_add_right _ _) (hle q hq)
    rw [locate]
    exact ⟨List.pairwise_cons.mpr ⟨hrest, hsorted⟩, List.forall_mem_cons.mpr ⟨Nat.le_refl _, hrest⟩⟩

namespace LocatedPiece

variable {p : LocatedPiece}

theorem line_of_token? {t : Token} (h : p.token? = some t) : t.line = p.line := by
  obtain ⟨line, piece⟩ := p
  cases piece with
  | lexeme kind text =>
    obtain rfl := Option.some.inj h
    rfl
  | blank | lineComment | longComment | openQuote | illegal => cases h

theorem piece_of_token? {t : Token} (h : p.token? = some t) :
    p.piece = .lexeme t.kind t.text.toList := by
  obtain ⟨line, piece⟩ := p
  cases piece with
  | lexeme kind text =>
    obtain rfl := Option.some.inj h
    simp
  | blank | lineComment | longComment | openQuote | illegal => cases h

theorem mem_diagnostics {d : Diagnostic} :
    d ∈ p.diagnostics ↔ d.error ∈ errors p.piece ∧ d.line = p.line := by
  obtain ⟨e, line⟩ := d
  simp [diagnostics]
  grind

end LocatedPiece

theorem pairwise_tokensOf {ps : List LocatedPiece} (h : ps.Pairwise (·.line ≤ ·.line)) :
    (tokensOf ps).Pairwise (·.line ≤ ·.line) := by
  rw [tokensOf, List.pairwise_filterMap]
  refine h.imp fun hle t ht u hu => ?_
  rw [LocatedPiece.line_of_token? ht, LocatedPiece.line_of_token? hu]
  exact hle

theorem pairwise_diagnosticsOf {ps : List LocatedPiece} (h : ps.Pairwise (·.line ≤ ·.line)) :
    (diagnosticsOf ps).Pairwise (·.line ≤ ·.line) := by
  have hline (p : LocatedPiece) : ∀ d ∈ p.diagnostics, d.line = p.line := fun d hd =>
    (LocatedPiece.mem_diagnostics.mp hd).2
  rw [diagnosticsOf, List.pairwise_flatMap]
  refine ⟨fun p _ => ?_, h.imp fun hle d hd e he => ?_⟩
  · exact List.pairwise_of_forall_mem_list fun d hd e he =>
      Nat.le_of_eq ((hline p d hd).trans (hline p e he).symm)
  · rw [hline _ d hd, hline _ e he]
    exact hle

namespace Lexer

variable {x : Lexer} {source : String}

/-- The lexer stands behind this much of the text, on the line that it ends on. -/
structure Stands (x : Lexer) (text before : List Char) : Prop where
  text_eq : text = before ++ x.cursor.ahead
  offset_eq : x.cursor.offset = byteLength before
  line_eq : x.cursor.line = 1 + before.count '\n'

theorem textOf_pieces (x : Lexer) : textOf x.pieces = x.cursor.ahead := by
  rw [pieces, textOf_locate, flatMap_text_pieces]

theorem Stands.passAll {text before : List Char} {ps : List LocatedPiece}
    (h : x.Stands text before) (hps : ps <+: x.pieces) :
    (x.passAll ps).Stands text (before ++ textOf ps) := by
  obtain ⟨qs, hqs⟩ := hps
  have hahead : x.cursor.ahead = textOf ps ++ textOf qs := by
    rw [← textOf_append, hqs, textOf_pieces]
  refine ⟨?_, ?_, ?_⟩
  · have hrest : (x.passAll ps).cursor.ahead = textOf qs := Cursor.ahead_past hahead
    rw [hrest, List.append_assoc, ← hahead]
    exact h.text_eq
  · rw [byteLength_append, ← h.offset_eq]
    rfl
  · rw [List.count_append, ← Nat.add_assoc, ← h.line_eq]
    rfl

theorem ReadsFrom.stands (h : x.ReadsFrom source) : ∃ before, x.Stands source.toList before := by
  obtain ⟨log, n, rfl⟩ := h
  have hstart : (start source log).Stands source.toList [] := ⟨rfl, rfl, rfl⟩
  rw [pull_eq]
  exact ⟨_, hstart.passAll <| throughToken_prefix n _⟩

theorem next_token {y : Lexer} {t : Token} (h : x.next = (some t, y)) :
    ∃ ps p qs, x.pieces = ps ++ p :: qs ∧ p.token? = some t ∧ y = x.passAll (ps ++ [p]) := by
  rw [next_eq] at h
  obtain ⟨hfirst, rfl⟩ := Prod.mk.inj h
  obtain ⟨ps, p, qs, hpieces, ht, hthrough⟩ := throughToken_one hfirst
  exact ⟨ps, p, qs, hpieces, ht, congrArg x.passAll hthrough⟩

end Lexer

theorem eq_of_mem_errors_scanComment {s : List Char} {e : LexicalError}
    (h : e ∈ LocatedPiece.errors (Piece.scanComment s)) : e = .unclosedComment := by
  revert h
  unfold Piece.scanComment
  split
  · obtain ⟨body, closing⟩ := scanLongComment (s.drop _)
    cases closing <;> simp [LocatedPiece.errors]
  · simp [LocatedPiece.errors]

theorem eq_of_mem_errors_scanString {c : Char} {s : List Char} {e : LexicalError}
    (h : e ∈ LocatedPiece.errors (Piece.scanString c s)) :
    e = .invalidEscape ∨ e = .unclosedString := by
  revert h
  unfold Piece.scanString
  split
  · exact fun h => .inl (List.eq_of_mem_replicate h)
  · exact fun h => .inr (List.mem_singleton.mp h)

/-- The errors of a piece are about what it begins with. -/
theorem isAbout_of_mem_errors {c : Char} {s : List Char} {e : LexicalError}
    (h : e ∈ LocatedPiece.errors (Piece.scan c s)) : e.IsAbout (c :: s) := by
  revert h
  refine Piece.scan_cases (motive := fun p => e ∈ LocatedPiece.errors p → e.IsAbout (c :: s)) c s
    ?blank ?comment ?string ?number ?word ?symbol
  case blank => simp [LocatedPiece.errors]
  case comment =>
    rintro r rfl rfl h
    obtain rfl := eq_of_mem_errors_scanComment h
    exact ⟨r, rfl⟩
  case string =>
    intro hq h
    obtain rfl | rfl := eq_of_mem_errors_scanString h
    · exact ⟨c, rfl, hq⟩
    · exact ⟨c, rfl, hq⟩
  case number => simp [Piece.scanNumber, LocatedPiece.errors]
  case word =>
    intro _
    unfold Piece.scanWord
    dsimp only
    split <;> simp [LocatedPiece.errors]
  case symbol =>
    intro _ _ _ _
    unfold Piece.scanSymbol
    split
    · simp [LocatedPiece.errors]
    · intro h
      obtain rfl := List.mem_singleton.mp h
      rfl

theorem isAbout_of_mem_diagnostics {line : Nat} {c : Char} {s : List Char} {d : Diagnostic}
    (h : d ∈ LocatedPiece.diagnostics ⟨line, Piece.scan c s⟩) :
    d.error.IsAbout (c :: s) ∧ d.line = line :=
  (LocatedPiece.mem_diagnostics.mp h).imp_left isAbout_of_mem_errors

theorem newlines_ofList (s : List Char) : newlines (String.ofList s) = s.count '\n' := by
  simp [newlines]

theorem eq_ofList_append {source : String} {s t : List Char} (h : source.toList = s ++ t) :
    source = String.ofList s ++ String.ofList t := by
  rw [← String.ofList_append, ← h, String.ofList_toList]

/-- A lexer that stands behind a string stands between two strings. -/
theorem Lexer.Stands.eq_append {x : Lexer} {source text : String} {before : List Char}
    (h : x.Stands source.toList (before ++ text.toList)) :
    source = .ofList before ++ text ++ .ofList x.cursor.ahead ∧
      x.cursor.offset = (.ofList before ++ text : String).utf8ByteSize := by
  have hbehind : String.ofList (before ++ text.toList) = .ofList before ++ text := by
    rw [String.ofList_append, String.ofList_toList]
  rw [← hbehind]
  exact ⟨eq_ofList_append h.text_eq, h.offset_eq⟩

theorem Lexer.Stands.line_le {x : Lexer} {source : String} {before : List Char}
    (h : x.Stands source.toList before) : x.cursor.line ≤ 1 + newlines source := by
  rw [h.line_eq, newlines, h.text_eq, List.count_append]
  omega

theorem line_le_of_mem_sourcePieces {source : String} {p : LocatedPiece}
    (h : p ∈ sourcePieces source) : p.line ≤ 1 + newlines source := by
  obtain ⟨ps, qs, hsplit⟩ := List.append_of_mem h
  obtain ⟨c, r, hsource, rfl⟩ := locate_split hsplit
  rw [newlines, hsource, List.count_append]
  exact Nat.add_le_add_left (Nat.le_add_right _ _) 1

/-- A piece that is ahead of a lexer stands in the source, on the line of the text before it. -/
theorem Lexer.Stands.piece {x : Lexer} {source : String} {before : List Char}
    {ps qs : List LocatedPiece} {p : LocatedPiece} (h : x.Stands source.toList before)
    (hpieces : x.pieces = ps ++ p :: qs) : ∃ c r, source.toList = before ++ textOf ps ++ c :: r ∧
      p = ⟨1 + (before ++ textOf ps).count '\n', Piece.scan c r⟩ := by
  obtain ⟨c, r, hahead, hp⟩ := locate_split hpieces
  refine ⟨c, r, ?_, ?_⟩
  · rw [h.text_eq, hahead, List.append_assoc]
  · rw [hp, h.line_eq, List.count_append, Nat.add_assoc]

/-- A token that a lexer gives is a piece of the source, on the line of the text before it, and the
lexer comes to stand behind it. -/
theorem Lexer.Stands.token {x y : Lexer} {source : String} {before : List Char} {t : Token}
    (h : x.Stands source.toList before) (hnext : x.next = (some t, y)) :
    ∃ skipped c r, source.toList = before ++ skipped ++ c :: r ∧
      Piece.scan c r = .lexeme t.kind t.text.toList ∧
      t.line = 1 + (before ++ skipped).count '\n' ∧
      y.Stands source.toList (before ++ skipped ++ t.text.toList) := by
  obtain ⟨ps, p, qs, hpieces, ht, rfl⟩ := Lexer.next_token hnext
  obtain ⟨c, r, hsource, hp⟩ := h.piece hpieces
  have hpiece := LocatedPiece.piece_of_token? ht
  have hline := LocatedPiece.line_of_token? ht
  have hread : ps ++ [p] <+: x.pieces := ⟨qs, by simp [hpieces]⟩
  have hthere := h.passAll hread
  have hbehind : before ++ textOf (ps ++ [p]) = before ++ textOf ps ++ t.text.toList := by
    simp [textOf, hpiece, Piece.text]
  rw [hbehind] at hthere
  rw [hp] at hpiece hline
  exact ⟨textOf ps, c, r, hsource, hpiece, hline, hthere⟩

/-- What a lexer reports is about text that it moves over, on the line of the text before that. -/
theorem Lexer.Stands.report {x : Lexer} {source : String} {before : List Char} {d : Diagnostic}
    (h : x.Stands source.toList before) (hd : d ∈ diagnosticsOf (throughToken 1 x.pieces)) :
    ∃ skipped c r, source.toList = before ++ skipped ++ c :: r ∧
      byteLength (before ++ skipped) < x.next.2.cursor.offset ∧
      d.error.IsAbout (c :: r) ∧ d.line = 1 + (before ++ skipped).count '\n' := by
  obtain ⟨p, hp, hd⟩ := List.mem_flatMap.mp hd
  obtain ⟨ps, qs, hsplit⟩ := List.append_of_mem hp
  obtain ⟨later, hlater⟩ := throughToken_prefix 1 x.pieces
  have hpieces : x.pieces = ps ++ p :: (qs ++ later) := by
    rw [← hlater, hsplit, List.append_assoc, List.cons_append]
  obtain ⟨c, r, hsource, rfl⟩ := h.piece hpieces
  have hnext : x.next.2 = x.passAll (throughToken 1 x.pieces) := congrArg Prod.snd x.next_eq
  refine ⟨textOf ps, c, r, hsource, ?_, isAbout_of_mem_diagnostics hd⟩
  rw [hnext, (h.passAll ⟨later, hlater⟩).offset_eq, hsplit, byteLength_append, byteLength_append]
  exact Nat.add_lt_add_left (byteLength_textOf_lt ps qs (Piece.text_scan_ne_nil c r)) _

theorem tracksLines (source : String) (h : newlines source < Nat.pow 2 32 - 1) :
    TracksLines source where
  place x hx := by
    obtain ⟨before, hstands⟩ := hx.stands
    have hle := hstands.line_le
    refine ⟨.ofList before, .ofList x.cursor.ahead, eq_ofList_append hstands.text_eq,
      hstands.offset_eq, ?_, by omega⟩
    rw [newlines_ofList]
    exact hstands.line_eq
  forward x hx := by
    rw [x.next_eq]
    exact Nat.le_add_right _ _
  token x y t hx hnext := by
    obtain ⟨before, hstands⟩ := hx.stands
    obtain ⟨skipped, c, r, -, -, hline, hthere⟩ := hstands.token hnext
    obtain ⟨hsource, hoffset⟩ := hthere.eq_append
    refine ⟨.ofList (before ++ skipped), .ofList y.cursor.ahead, hsource, hoffset, ?_⟩
    rw [newlines_ofList, hline]
  report x y t? hx hnext := by
    obtain ⟨before, hstands⟩ := hx.stands
    obtain rfl : x.next.2 = y := congrArg Prod.snd hnext
    refine ⟨diagnosticsOf (throughToken 1 x.pieces), by rw [x.next_eq]; rfl, fun d hd => ?_⟩
    obtain ⟨skipped, c, r, hsource, hbehind, habout, hline⟩ := hstands.report hd
    refine ⟨.ofList (before ++ skipped), .ofList (c :: r), eq_ofList_append hsource, ?_, hbehind,
      ?_, ?_⟩
    · rw [hstands.offset_eq, String.ofList_append, String.utf8ByteSize_append]
      exact Nat.le_add_right _ _
    · rwa [String.toList_ofList]
    · rwa [newlines_ofList]
  error ps qs p hsplit := by
    obtain ⟨c, r, hsource, rfl⟩ := locate_split hsplit
    refine ⟨.ofList (textOf ps), .ofList (c :: r), eq_ofList_append hsource, String.toList_ofList,
      fun d hd => ?_⟩
    rw [String.toList_ofList, newlines_ofList]
    exact isAbout_of_mem_diagnostics hd
  tokens_sorted := List.pairwise_map.mpr (pairwise_tokensOf (pairwise_locate 1 _).1)
  errors_sorted := List.pairwise_map.mpr (pairwise_diagnosticsOf (pairwise_locate 1 _).1)
  tokens_le t ht := by
    obtain ⟨p, hp, ht⟩ := List.mem_filterMap.mp ht
    rw [LocatedPiece.line_of_token? ht]
    exact line_le_of_mem_sourcePieces hp
  errors_le d hd := by
    obtain ⟨p, hp, hd⟩ := List.mem_flatMap.mp hd
    rw [(LocatedPiece.mem_diagnostics.mp hd).2]
    exact line_le_of_mem_sourcePieces hp

theorem tracksLines_unfinished : newlines "x = 'it\ny --[[\n" < Nat.pow 2 32 - 1 ∧
    TracksLines "x = 'it\ny --[[\n" :=
  ⟨by decide, tracksLines _ (by decide)⟩

end LuaSyntax
