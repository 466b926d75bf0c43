import LuaSyntax.Proofs.Scan
import LuaSyntax.Source.Lexer
import LuaSyntax.Source.Reading

/-!
Reading on demand. Each time it goes on, a lexer reads one piece of its source: it moves behind the
piece and reports its errors. So what it gives when it is asked some number of times is what the
pieces give, as far as they have been read.
-/
namespace LuaSyntax

/-- How many bytes a text takes up. -/
def byteLength (s : List Char) : Nat := (String.ofList s).utf8ByteSize

@[simp] theorem byteLength_nil : byteLength [] = 0 := rfl

theorem byteLength_append (s t : List Char) :
    byteLength (s ++ t) = byteLength s + byteLength t := by
  rw [byteLength, String.ofList_append, String.utf8ByteSize_append, byteLength, byteLength]

theorem byteLength_singleton (c : Char) : byteLength [c] = c.utf8Size := by
  simp [byteLength]

theorem byteLength_cons (c : Char) (s : List Char) :
    byteLength (c :: s) = c.utf8Size + byteLength s := by
  rw [← byteLength_singleton, ← byteLength_append, List.singleton_append]

theorem byteLength_pos {s : List Char} (h : s ≠ []) : 0 < byteLength s := by
  cases s with
  | nil => exact absurd rfl h
  | cons c s =>
    have hbytes := byteLength_cons c s
    have hpos := c.utf8Size_pos
    omega

theorem leadingBytes_append (t r : List Char) : leadingBytes (byteLength t) (t ++ r) = t := by
  induction t with
  | nil => cases r <;> rfl
  | cons c t ih =>
    have hbytes := byteLength_cons c t
    have hpos := c.utf8Size_pos
    rw [List.cons_append, leadingBytes, hbytes, Nat.add_sub_cancel_left, ih]
    omega

/-- The text that pieces make up. -/
def textOf (ps : List LocatedPiece) : List Char := ps.flatMap fun p => p.piece.text

namespace Cursor

/-- The place behind a text that comes next. -/
def past (k : Cursor) (text : List Char) : Cursor :=
  ⟨k.ahead.drop text.length, k.offset + byteLength text, k.line + text.count '\n'⟩

variable {k : Cursor} {c quote : Char} {s t r : List Char}

@[simp] theorem past_nil (k : Cursor) : k.past [] = k := by
  simp [past]

theorem past_append (k : Cursor) (t u : List Char) : (k.past t).past u = k.past (t ++ u) := by
  simp [past, byteLength_append, Nat.add_assoc]

theorem ahead_past (h : k.ahead = t ++ r) : (k.past t).ahead = r := by
  simp [past, h]

theorem step_eq_past (h : k.ahead = c :: s) : k.step = k.past [c] := by
  by_cases hc : c = '\n'
  · simp [step, past, h, hc, byteLength_singleton]
  · simp [step, past, h, hc, byteLength_singleton]

theorem skip_eq_past (h : k.ahead = t ++ r) : k.skip t.length = k.past t := by
  induction t generalizing k with
  | nil => simp [skip]
  | cons c t ih =>
    have hstep : k.step = k.past [c] := step_eq_past h
    have hahead : k.step.ahead = t ++ r := by rw [ahead_step, h, List.cons_append, List.tail_cons]
    rw [List.length_cons, skip, ih hahead, hstep, past_append, List.singleton_append]

theorem step_skip_eq_past (ht : t ≠ []) (h : k.ahead = t ++ r) :
    k.step.skip (t.length - 1) = k.past t := by
  obtain ⟨c, u, rfl⟩ := List.exists_cons_of_ne_nil ht
  exact skip_eq_past h

theorem skipWhile_eq_past (p : Char → Bool) (k : Cursor) :
    k.skipWhile p = k.past (k.ahead.takeWhile p) :=
  skip_eq_past (takeWhile_append_drop p k.ahead).symm

theorem textTo_past (h : k.ahead = t ++ r) : k.textTo (k.past t) = t := by
  rw [textTo, past, Nat.add_sub_cancel_left, h, leadingBytes_append]

/-- What follows the opening bracket of a comment is passed as the scan finds it. -/
theorem skipLongComment_eq (k : Cursor) :
    k.skipLongComment = ((scanLongComment k.ahead).2.isSome,
      k.past ((scanLongComment k.ahead).1 ++
        ((scanLongComment k.ahead).2.map (longBracket ']')).getD [])) := by
  fun_induction skipLongComment k with
  | case1 k h => simp [h, scanLongComment]
  | case2 k c s h level hlevel =>
    obtain ⟨r, hr⟩ := longBracket_prefix hlevel
    have hlength : level + 2 = (longBracket ']' level).length := by simp [longBracket]
    rw [hlength, skip_eq_past (h.trans hr.symm), h, scanLongComment_of_level hlevel]
    rfl
  | case3 k c s h hlevel ih =>
    rw [ahead_step, h, List.tail_cons, step_eq_past h, past_append] at ih
    rw [step_eq_past h, ih, h, scanLongComment_cons hlevel]
    rfl

theorem skipString_nil (h : k.ahead = []) (n : Nat) : k.skipString quote n = (none, k) := by
  rw [skipString]
  split
  · rfl
  · simp_all

theorem skipString_cons (h : k.ahead = c :: s) (n : Nat) :
    k.skipString quote n =
      if c = '\n' then (none, k)
      else if c = quote then (some n, k.step)
      else if c = '\\' then
        if s.head?.any StringLiteral.isEscape then k.step.step.skipString quote n
        else k.step.skipString quote (n + 1)
      else k.step.skipString quote n := by
  rw [skipString]
  split <;> simp_all

/-- What is passed of a string whose body is found, or is not. The line stays the same in either
case: no string goes beyond it, and it is given up before the line feed. -/
def PassesString (k : Cursor) (n : Nat) : Option (List Char) → Option Nat × Cursor → Prop
  | some body, result => result = (some (n + StringLiteral.invalidEscapes body), k.past body)
  | none, result => result.1 = none ∧ result.2.line = k.line

theorem PassesString.append {m n : Nat} {body? : Option (List Char)} {result : Option Nat × Cursor}
    (hline : '\n' ∉ t)
    (hinvalid : ∀ body ∈ body?, StringLiteral.invalidEscapes (t ++ body) =
      m + StringLiteral.invalidEscapes body)
    (h : (k.past t).PassesString (n + m) body? result) :
    k.PassesString n (body?.map (t ++ ·)) result := by
  cases body? with
  | none =>
    obtain ⟨hnone, hsame⟩ := h
    refine ⟨hnone, hsame.trans ?_⟩
    simp [past, List.count_eq_zero.mpr hline]
  | some body =>
    obtain rfl : result = _ := h
    simp only [Option.map_some, PassesString]
    rw [hinvalid body rfl, past_append, Nat.add_assoc]

theorem PassesString.backslash {n : Nat} (hq : StringLiteral.IsQuote quote)
    (h : k.ahead = '\\' :: s) (hs : ∀ e ∈ s.head?, StringLiteral.isEscape e = false)
    (hrest : (k.past ['\\']).PassesString (n + 1) (StringLiteral.scanBody? quote s)
      ((k.past ['\\']).skipString quote (n + 1))) :
    k.PassesString n (StringLiteral.scanBody? quote ('\\' :: s)) (k.skipString quote n) := by
  have hescape : s.head?.any StringLiteral.isEscape = false := by
    cases s with
    | nil => rfl
    | cons e s => exact hs e rfl
  rw [skipString_cons h, if_neg (by decide), if_neg hq.ne_backslash.symm, if_pos rfl, hescape,
    if_neg Bool.false_ne_true, step_eq_past h, StringLiteral.scanBody?_backslash hq hs]
  refine hrest.append (by decide) fun body hbody => ?_
  obtain ⟨hgrammar, r, rfl⟩ := StringLiteral.body_of_scanBody? hq hbody
  cases body with
  | nil => exact absurd rfl hgrammar.ne_nil
  | cons e body => rw [List.singleton_append, 
      StringLiteral.invalidEscapes_backslash (s := e :: body) hs, Nat.add_comm]

/-- A string is passed as the scan finds it. -/
theorem passesString_skipString (hq : StringLiteral.IsQuote quote) (h : k.ahead = s) (n : Nat) :
    k.PassesString n (StringLiteral.scanBody? quote s) (k.skipString quote n) := by
  induction s using StringLiteral.scanBody?.induct quote generalizing k n with
  | case1 =>
    rw [skipString_nil h]
    exact ⟨rfl, rfl⟩
  | case2 r =>
    rw [skipString_cons h, if_pos rfl, StringLiteral.scanBody?.eq_def]
    simp [PassesString]
  | case3 r =>
    rw [skipString_cons h, if_neg hq.ne_newline, if_pos rfl, StringLiteral.scanBody?_quote hq]
    rw [PassesString, step_eq_past h, StringLiteral.invalidEscapes_plain hq.ne_backslash]
    rfl
  | case4 =>
    refine .backslash hq h (by simp) ?_
    rw [skipString_nil (ahead_past h)]
    exact ⟨rfl, rfl⟩
  | case5 e r he hline hquote ih =>
    have htwo : k.step.step = k.past ['\\', e] := skip_eq_past (t := ['\\', e]) h
    have hne : e ≠ '\n' := by
      rintro rfl
      cases he
    rw [skipString_cons h, if_neg hline, if_neg hquote, if_pos rfl, List.head?_cons,
      Option.any_some, if_pos he, htwo, StringLiteral.scanBody?_escape hq he]
    refine PassesString.append (t := ['\\', e]) (m := 0) (by simpa using hne.symm) ?_
      (ih (ahead_past h) n)
    intro body _
    exact (StringLiteral.invalidEscapes_escape he body).trans (Nat.zero_add _).symm
  | case6 e r he hline hquote ih =>
    exact .backslash hq h (by simpa using he) (ih (ahead_past h) (n + 1))
  | case7 c r hline hquote hslash ih =>
    rw [skipString_cons h, if_neg hline, if_neg hquote, if_neg hslash, step_eq_past h,
      StringLiteral.scanBody?_plain hline hquote hslash]
    refine PassesString.append (t := [c]) (m := 0) (by simpa using Ne.symm hline) ?_
      (ih (ahead_past h) n)
    intro body _
    exact (StringLiteral.invalidEscapes_plain hslash body).trans (Nat.zero_add _).symm

end Cursor

namespace Lexer

/-- The lexer behind pieces that come next, with their errors reported. -/
def passAll (x : Lexer) (ps : List LocatedPiece) : Lexer :=
  ⟨x.cursor.past (textOf ps), x.log.reportAll (diagnosticsOf ps)⟩

/-- The lexer behind one piece. -/
def pass (x : Lexer) (p : Piece) : Lexer :=
  ⟨x.cursor.past p.text, x.log.reportAll (LocatedPiece.diagnostics ⟨x.cursor.line, p⟩)⟩

/-- The pieces of what is ahead. -/
def pieces (x : Lexer) : List LocatedPiece := locate x.cursor.line (LuaSyntax.pieces x.cursor.ahead)

/-- What reading a piece gives. -/
def passed (x : Lexer) (p : Piece) : Option Token × Lexer :=
  (LocatedPiece.token? ⟨x.cursor.line, p⟩, x.pass p)

variable {x : Lexer} {c quote : Char} {s r : List Char}

theorem emit_past {t : List Char} {kind : TokenKind} (h : x.cursor.ahead = t ++ r)
    (hkind : kind ≠ .string) : x.emit kind (x.cursor.past t) = x.passed (.lexeme kind t) := by
  have herrors : LocatedPiece.errors (.lexeme kind t) = [] := by
    cases kind <;> first | rfl | exact absurd rfl hkind
  simp [emit, passed, pass, goTo, Cursor.textTo_past h, LocatedPiece.token?, Piece.text,
    LocatedPiece.diagnostics, herrors, Log.reportAll]

theorem skipComment_eq (h : x.cursor.ahead = '-' :: '-' :: s) :
    (x.goTo x.cursor.step.step).skipComment = x.pass (Piece.scanComment s) := by
  have hstep : x.cursor.step.step = x.cursor.past ['-', '-'] :=
    Cursor.skip_eq_past (t := ['-', '-']) h
  have hahead : (x.cursor.past ['-', '-']).ahead = s := Cursor.ahead_past h
  unfold skipComment Piece.scanComment
  rw [hstep, goTo, hahead]
  cases hlevel : longBracketLevel? '[' s with
  | some level =>
    obtain ⟨r, rfl⟩ := longBracket_prefix hlevel
    have hlength : level + 2 = (longBracket '[' level).length := by simp [longBracket]
    have hopen : (x.cursor.past ['-', '-']).skip (level + 2) =
        x.cursor.past ('-' :: '-' :: longBracket '[' level) := by
      rw [hlength, Cursor.skip_eq_past hahead, Cursor.past_append]
      rfl
    have hbody : (x.cursor.past ('-' :: '-' :: longBracket '[' level)).ahead = r :=
      Cursor.ahead_past h
    dsimp only
    rw [hopen, Cursor.skipLongComment_eq, hbody, Cursor.past_append, drop_longBracket]
    obtain ⟨body, closing⟩ := scanLongComment r
    cases closing <;> simp [pass, goTo, report, Log.reportAll, Piece.text,
      LocatedPiece.diagnostics, LocatedPiece.errors, Cursor.past]
  | none =>
    dsimp only
    rw [Cursor.skipWhile_eq_past, hahead, Cursor.past_append]
    rfl

theorem readString_eq (hq : StringLiteral.IsQuote quote) (h : x.cursor.ahead = quote :: s) :
    x.readString quote = x.passed (Piece.scanString quote s) := by
  have hpasses := Cursor.passesString_skipString hq (Cursor.ahead_past (t := [quote]) h) 0
  unfold readString Piece.scanString
  dsimp only
  rw [Cursor.step_eq_past h]
  cases hbody : StringLiteral.scanBody? quote s with
  | some body =>
    rw [hbody] at hpasses
    have hresult : Cursor.skipString quote 0 (x.cursor.past [quote]) = _ := hpasses
    obtain ⟨r, hr⟩ := (StringLiteral.body_of_scanBody? hq hbody).2
    have hahead : x.cursor.ahead = quote :: body ++ r := by rw [h, ← hr, List.cons_append]
    rw [hresult, Cursor.past_append, List.singleton_append]
    simp [emit, goTo, reportTimes, passed, pass, Cursor.textTo_past hahead, Piece.text,
      LocatedPiece.token?, LocatedPiece.diagnostics, LocatedPiece.errors,
      StringLiteral.invalidEscapes_plain hq.ne_backslash]
  | none =>
    rw [hbody] at hpasses
    obtain ⟨hnone, hline⟩ := hpasses
    generalize Cursor.skipString quote 0 (x.cursor.past [quote]) = result at hnone hline ⊢
    obtain ⟨count, k⟩ := result
    obtain rfl : count = none := hnone
    simp [goTo, report, passed, pass, Log.reportAll, Piece.text, LocatedPiece.token?,
      LocatedPiece.diagnostics, LocatedPiece.errors, show k.line = _ from hline]

theorem readNumber_eq (hc : c.isDigit = true) (h : x.cursor.ahead = c :: s) :
    x.readNumber = x.passed (Piece.scanNumber (c :: s)) := by
  obtain ⟨r, hr⟩ := NumberLiteral.scan_prefix (c :: s)
  have hahead := h.trans hr.symm
  unfold readNumber Piece.scanNumber
  dsimp only
  rw [h, Cursor.step_skip_eq_past (NumberLiteral.text_scan_ne_nil hc s) hahead]
  exact emit_past hahead (by simp)

theorem readWord_eq (hc : isWordStart c = true) (h : x.cursor.ahead = c :: s) :
    x.readWord = x.passed (Piece.scanWord (c :: s)) := by
  have hword : (c :: s).takeWhile isWordChar = c :: s.takeWhile isWordChar :=
    List.takeWhile_cons_of_pos (isWordChar_of_isWordStart hc)
  have hahead : x.cursor.ahead =
      (c :: s).takeWhile isWordChar ++ (c :: s).drop ((c :: s).takeWhile isWordChar).length :=
    h.trans (takeWhile_append_drop isWordChar _).symm
  have hcursor : x.cursor.step.skipWhile isWordChar =
      x.cursor.past ((c :: s).takeWhile isWordChar) := by
    rw [Cursor.skipWhile_eq_past, Cursor.ahead_step, h, List.tail_cons, Cursor.step_eq_past h,
      Cursor.past_append, hword, List.singleton_append]
  unfold readWord Piece.scanWord
  dsimp only
  rw [hcursor, Cursor.textTo_past hahead]
  cases Keyword.ofSpelling? (String.ofList ((c :: s).takeWhile isWordChar)) with
  | some w => exact emit_past hahead (by simp)
  | none => exact emit_past hahead (by simp)

theorem readSymbol_eq (h : x.cursor.ahead = c :: s) :
    x.readSymbol c = x.passed (Piece.scanSymbol c s) := by
  unfold readSymbol Piece.scanSymbol
  rw [h]
  cases hy : Symbol.scan? (c :: s) with
  | some y =>
    obtain ⟨r, hr⟩ := Symbol.chars_prefix hy
    have hahead := h.trans hr.symm
    dsimp only
    rw [Cursor.step_skip_eq_past y.chars_ne_nil hahead]
    exact emit_past hahead (by simp)
  | none =>
    dsimp only
    rw [Cursor.step_eq_past h]
    rfl

/-- Going on reads one piece. -/
theorem read_eq (h : x.cursor.ahead = c :: s) : x.read c s = x.passed (Piece.scan c s) := by
  unfold read Piece.scan
  split
  · rw [Cursor.step_eq_past h]
    rfl
  split
  · rename_i hdashes
    obtain ⟨rfl, hs⟩ : c = '-' ∧ s.head? = some '-' := by simpa using hdashes
    obtain ⟨r, rfl⟩ := List.head?_eq_some_iff.mp hs
    rw [skipComment_eq h, List.tail_cons, passed]
    unfold Piece.scanComment
    split <;> rfl
  split
  · rename_i hquote
    exact readString_eq (by simpa [StringLiteral.IsQuote] using hquote) h
  split
  · exact readNumber_eq ‹_› h
  split
  · exact readWord_eq ‹_› h
  · exact readSymbol_eq h

theorem pieces_start (source : String) (log : Log) :
    (start source log).pieces = sourcePieces source := rfl

theorem pieces_cons (h : x.cursor.ahead = c :: s) :
    x.pieces = ⟨x.cursor.line, Piece.scan c s⟩ :: (x.pass (Piece.scan c s)).pieces := by
  obtain ⟨r, hr⟩ := Piece.text_scan_prefix c s
  have hahead : (x.pass (Piece.scan c s)).cursor.ahead = r := Cursor.ahead_past (h.trans hr.symm)
  rw [pieces, h, pieces_of_append hr, locate, pieces, hahead]
  rfl

theorem passAll_cons (x : Lexer) (p : Piece) (ps : List LocatedPiece) :
    x.passAll (⟨x.cursor.line, p⟩ :: ps) = (x.pass p).passAll ps := by
  simp [passAll, pass, textOf, Cursor.past_append, diagnosticsOf_cons, Log.reportAll_append]

theorem next_nil (h : x.cursor.ahead = []) : x.next = (none, x) := by
  rw [next]
  split
  · rfl
  · simp_all

theorem next_cons (h : x.cursor.ahead = c :: s) :
    x.next = match x.read c s with
      | (some t, y) => (some t, y)
      | (none, y) => y.next := by
  rw [next]
  split
  · simp_all
  · rename_i c' s' hahead
    obtain ⟨rfl, rfl⟩ := List.cons.inj (h.symm.trans hahead)
    split <;> rename_i hread <;> rw [hread]

theorem next_of_token {t : Token} (h : x.cursor.ahead = c :: s)
    (ht : LocatedPiece.token? ⟨x.cursor.line, Piece.scan c s⟩ = some t) :
    x.next = (some t, x.pass (Piece.scan c s)) := by
  rw [next_cons h, read_eq h, passed, ht]

theorem next_of_skipped (h : x.cursor.ahead = c :: s)
    (hskip : LocatedPiece.token? ⟨x.cursor.line, Piece.scan c s⟩ = none) :
    x.next = (x.pass (Piece.scan c s)).next := by
  rw [next_cons h, read_eq h, passed, hskip]

theorem pull_succ (n : Nat) (x : Lexer) :
    pull (n + 1) x = (x.next.1 :: (pull n x.next.2).1, (pull n x.next.2).2) := rfl

theorem pull_of_nil (h : x.cursor.ahead = []) (n : Nat) :
    pull n x = (List.replicate n none, x) := by
  induction n with
  | zero => rfl
  | succ n ih => rw [pull_succ, next_nil h, ih, List.replicate_succ]

theorem passAll_nil (x : Lexer) : x.passAll [] = x := by
  simp [passAll, textOf, diagnosticsOf, Log.reportAll]

/-- What is given and what is reported when a lexer is asked again and again: the tokens among the
pieces as long as there are any, and the errors up to the last of them. -/
theorem pull_eq (n : Nat) (x : Lexer) :
    pull n x = (takeTokens n x.pieces, x.passAll (throughToken n x.pieces)) := by
  generalize hs : x.cursor.ahead = s
  induction s using pieces_induction generalizing n x with
  | nil =>
    have hpieces : x.pieces = [] := by
      rw [pieces, hs]
      rfl
    rw [pull_of_nil hs, hpieces, takeTokens_nil, throughToken_nil, passAll_nil]
  | cons c s r hr ih =>
    cases n with
    | zero => simp [pull, takeTokens, throughToken, tokensOf, passAll_nil]
    | succ n =>
      have hrest : (x.pass (Piece.scan c s)).cursor.ahead = r :=
        Cursor.ahead_past (hs.trans hr.symm)
      rw [pieces_cons hs]
      cases ht : LocatedPiece.token? ⟨x.cursor.line, Piece.scan c s⟩ with
      | some t =>
        rw [pull_succ, next_of_token hs ht, ih _ _ hrest, takeTokens_cons_some ht,
          throughToken_cons_some ht, passAll_cons]
      | none =>
        have hskip : pull (n + 1) x = pull (n + 1) (x.pass (Piece.scan c s)) := by
          rw [pull_succ, next_of_skipped hs ht, pull_succ]
        rw [hskip, ih _ _ hrest, takeTokens_cons_none ht, throughToken_cons_none ht, passAll_cons]

/-- The tokens ahead. -/
def tokens (x : Lexer) : List Token := tokensOf x.pieces

theorem tokens_start (source : String) (log : Log) : (start source log).tokens = tokenize source :=
  rfl

/-- Asking once gives the first token ahead. -/
theorem next_eq (x : Lexer) : x.next = (x.tokens.head?, x.passAll (throughToken 1 x.pieces)) := by
  have hpull : ([x.next.1], x.next.2) = _ := pull_eq 1 x
  obtain ⟨hfirst, hrest⟩ := Prod.mk.inj hpull
  refine Prod.ext ?_ hrest
  rw [takeTokens_eq] at hfirst
  unfold tokens
  cases hts : tokensOf x.pieces <;> simpa [hts] using hfirst

/-- What is ahead behind some of the pieces is the rest of them. -/
theorem pieces_passAll {ps qs : List LocatedPiece} (h : x.pieces = ps ++ qs) :
    (x.passAll ps).pieces = qs := by
  induction ps generalizing x with
  | nil => rwa [passAll_nil]
  | cons p ps ih =>
    cases hs : x.cursor.ahead with
    | nil => simp [pieces, hs, LuaSyntax.pieces, piecesAfter, locate] at h
    | cons c s =>
      rw [pieces_cons hs] at h
      obtain ⟨rfl, hrest⟩ := List.cons.inj h
      rw [passAll_cons]
      exact ih hrest

theorem next_of_tokens_nil (h : x.tokens = []) : x.next = (none, x.passAll x.pieces) := by
  have hnone : tokensOf x.pieces = [] := h
  have hall : throughToken 1 x.pieces = x.pieces := throughToken_of_lt (by simp [hnone])
  rw [next_eq, h, hall]
  rfl

theorem next_of_passAll_pieces (x : Lexer) :
    (x.passAll x.pieces).next = (none, x.passAll x.pieces) := by
  have hnone : (x.passAll x.pieces).pieces = [] := pieces_passAll (List.append_nil _).symm
  have htokens : (x.passAll x.pieces).tokens = [] := congrArg tokensOf hnone
  rw [next_of_tokens_nil htokens, hnone, passAll_nil]

theorem next_of_tokens_cons {t : Token} {ts : List Token} (h : x.tokens = t :: ts) :
    ∃ y, x.next = (some t, y) ∧ y.tokens = ts := by
  obtain ⟨qs, hqs⟩ : throughToken 1 x.pieces <+: x.pieces := throughToken_prefix 1 x.pieces
  refine ⟨x.passAll (throughToken 1 x.pieces), ?_, ?_⟩
  · rw [next_eq, h]
    rfl
  · have hsplit : tokensOf (throughToken 1 x.pieces) ++ tokensOf qs = t :: ts := by
      rw [← h, tokens, tokensOf, tokensOf, ← List.filterMap_append, hqs]
      rfl
    have hfirst : tokensOf (throughToken 1 x.pieces) = [t] := by
      rw [tokensOf_throughToken, ← tokens, h]
      rfl
    rw [hfirst] at hsplit
    rw [tokens, pieces_passAll hqs.symm]
    exact (List.cons.inj hsplit).2

theorem collect_of_none {y : Lexer} (h : x.next = (none, y)) : x.collect = ([], y) := by
  rw [collect]
  split <;> simp_all

theorem collect_of_some {y : Lexer} {t : Token} (h : x.next = (some t, y)) :
    x.collect = (t :: y.collect.1, y.collect.2) := by
  rw [collect]
  split <;> simp_all

end Lexer

end LuaSyntax
