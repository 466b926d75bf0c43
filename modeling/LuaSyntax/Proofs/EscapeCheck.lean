import LuaSyntax.Proofs.Lines
import LuaSyntax.Proofs.Lookahead
import LuaSyntax.Proofs.Quote

/-!
Escape sequences are looked at twice: a lexer reports those that are none, and the value of a string
keeps the backslash of those. Both find the same ones, though they do not step through the text alike.
-/
namespace LuaSyntax

namespace StringLiteral

/-- What the value of a string is found from, one part after the other: a character, an escape
sequence, or a backslash that is kept, with the character behind it unless it is the last. -/
inductive Part
  | plain (c : Char) (h : c ≠ '\\')
  | escape (e v : Char) (h : escapeValue? e = some v)
  | kept (e? : Option Char) (h : ∀ e ∈ e?, escapeValue? e = none)

namespace Part

def source : Part → List Char
  | plain c _ => [c]
  | escape e _ _ => ['\\', e]
  | kept e? _ => '\\' :: e?.toList

def value : Part → List Char
  | plain c _ => [c]
  | escape _ v _ => [v]
  | kept e? _ => '\\' :: e?.toList

def isEscape : Part → Bool
  | escape _ _ _ => true
  | _ => false

def isKept : Part → Bool
  | kept _ _ => true
  | _ => false

end Part

def parts : List Char → List Part
  | [] => []
  | c :: s =>
    if hc : c = '\\' then
      match s with
      | [] => [.kept none (by simp)]
      | e :: r =>
        match he : escapeValue? e with
        | some v => .escape e v he :: parts r
        | none => .kept (some e) (by simpa using he) :: parts r
    else .plain c hc :: parts s

/-- How many backslashes come into the value because no escape sequence begins with them. -/
def keptBackslashes (ps : List Part) : Nat :=
  ((ps.filter Part.isKept).flatMap Part.value).count '\\'

section

variable {quote c e v : Char} {s : List Char}

theorem parts_plain (h : c ≠ '\\') (s : List Char) : parts (c :: s) = .plain c h :: parts s := by
  rw [parts.eq_def]
  exact dif_neg h

theorem parts_escape (h : escapeValue? e = some v) (s : List Char) :
    parts ('\\' :: e :: s) = .escape e v h :: parts s := by
  rw [parts.eq_def]
  simp only [↓reduceDIte]
  split
  · rename_i w hw
    obtain rfl : w = v := Option.some.inj (hw.symm.trans h)
    rfl
  · rename_i hnone
    rw [h] at hnone
    cases hnone

theorem parts_kept (h : escapeValue? e = none) (s : List Char) :
    parts ('\\' :: e :: s) = .kept (some e) (by simpa using h) :: parts s := by
  rw [parts.eq_def]
  simp only [↓reduceDIte]
  split
  · rename_i w hw
    rw [h] at hw
    cases hw
  · rfl

theorem flatMap_source_parts (s : List Char) : (parts s).flatMap Part.source = s := by
  induction s using decode.induct with
  | case1 => rfl
  | case2 => rfl
  | case3 e r v he ih => rw [parts_escape he, List.flatMap_cons, ih, Part.source]; rfl
  | case4 e r he ih => rw [parts_kept he, List.flatMap_cons, ih, Part.source]; rfl
  | case5 c s hc ih => rw [parts_plain hc, List.flatMap_cons, ih, Part.source]; rfl

theorem flatMap_value_parts (s : List Char) : (parts s).flatMap Part.value = decode s := by
  induction s using decode.induct with
  | case1 => rfl
  | case2 => rfl
  | case3 e r v he ih => rw [parts_escape he, decode_known he, List.flatMap_cons, ih]; rfl
  | case4 e r he ih => rw [parts_kept he, decode_unknown he, List.flatMap_cons, ih]; rfl
  | case5 c s hc ih => rw [parts_plain hc, decode_plain hc, List.flatMap_cons, ih]; rfl

/-- The character behind a backslash that is kept is none itself: two of them are an escape sequence. -/
theorem Part.count_value {p : Part} (h : p.isKept = true) : p.value.count '\\' = 1 := by
  cases p with
  | plain | escape => cases h
  | kept e? he =>
    cases e? with
    | none => rfl
    | some e =>
      have hslash : e ≠ '\\' := by
        rintro rfl
        cases he '\\' rfl
      simp [value, hslash]

theorem keptBackslashes_cons (p : Part) (ps : List Part) :
    keptBackslashes (p :: ps) = keptBackslashes ps + if p.isKept then 1 else 0 := by
  cases hp : p.isKept with
  | true => simp [keptBackslashes, hp, Part.count_value hp, Nat.add_comm]
  | false => simp [keptBackslashes, hp]

theorem Part.isKept_eq_false {p : Part} :
    p.isKept = false ↔ ('\\' ∈ p.source → p.isEscape = true) := by
  cases p with
  | plain c hc => simp [isKept, isEscape, source, hc.symm]
  | escape => simp [isKept, isEscape]
  | kept => simp [isKept, isEscape, source]

theorem keptBackslashes_eq_zero (ps : List Part) :
    keptBackslashes ps = 0 ↔ ∀ p ∈ ps, '\\' ∈ p.source → p.isEscape = true := by
  simp only [← Part.isKept_eq_false]
  induction ps with
  | nil => simp [keptBackslashes]
  | cons p ps ih =>
    rw [keptBackslashes_cons, List.forall_mem_cons, ← ih]
    cases p.isKept <;> simp

/-- The lexer goes on behind the backslash, the value behind the character after it; no quote and no
backslash is passed over that way. -/
theorem invalidEscapes_body (hq : IsQuote quote) (h : Body quote (s ++ [quote])) :
    invalidEscapes (s ++ [quote]) = keptBackslashes (parts s) := by
  induction s using decode.induct with
  | case1 => exact invalidEscapes_plain hq.ne_backslash []
  | case2 =>
    -- if the last backslash and the quote were an escape sequence, the string would not end there
    have hescape : isEscape quote = false :=
      Bool.eq_false_iff.mpr fun hescape => (h.of_escape hescape).ne_nil rfl
    have hhead : ∀ e ∈ [quote].head?, isEscape e = false := by simpa using hescape
    exact (invalidEscapes_backslash hhead).trans (by rw [invalidEscapes_plain hq.ne_backslash]; rfl)
  | case3 e r v he ih =>
    have hescape : isEscape e = true := by simp [isEscape, he]
    rw [parts_escape he, keptBackslashes_cons]
    exact (invalidEscapes_escape hescape _).trans (ih (h.of_escape hescape))
  | case4 e r he ih =>
    have hescape : ∀ e' ∈ (e :: (r ++ [quote])).head?, isEscape e' = false := by simp [isEscape, he]
    have hslash : e ≠ '\\' := by
      rintro rfl
      cases he
    have hbody := (h.of_backslash hq hescape).of_plain hslash (by simp)
    calc invalidEscapes ('\\' :: e :: (r ++ [quote]))
        = invalidEscapes (r ++ [quote]) + 1 := by
          rw [invalidEscapes_backslash hescape, invalidEscapes_plain hslash]
      _ = keptBackslashes (parts ('\\' :: e :: r)) := by
          rw [parts_kept he, keptBackslashes_cons, ih hbody]
          rfl
  | case5 c s hc ih =>
    rw [parts_plain hc, keptBackslashes_cons]
    exact (invalidEscapes_plain hc _).trans (ih (h.of_plain hc (by simp)))

end

end StringLiteral

open StringLiteral

/-- How the escape sequences of a string token are dealt with by the lexer that comes from one state
to the other over it, and by the value of its text. -/
structure EscapesAgree (x y : Lexer) (t : Token) (ps : List Part) : Prop where
  text : ∃ quote, IsQuote quote ∧ t.text.toList = quote :: (ps.flatMap Part.source ++ [quote])
  value : StringLiteral.value t.text = String.ofList (ps.flatMap Part.value)
  /-- What is reported for the token, after what is reported on the way to it. -/
  report : ∃ before, (∀ d ∈ before, d.error ≠ .invalidEscape) ∧ y.log =
    x.log.reportAll (before ++ List.replicate (keptBackslashes ps) ⟨.invalidEscape, t.line⟩)
  no_report : keptBackslashes ps = 0 ↔ ∀ p ∈ ps, '\\' ∈ p.source → p.isEscape = true

theorem Piece.scan_string {c : Char} {s text : List Char}
    (h : Piece.scan c s = .lexeme .string text) :
    ∃ body, IsQuote c ∧ text = c :: (body ++ [c]) ∧ Body c (body ++ [c]) := by
  revert h
  refine Piece.scan_cases (motive := fun p => p = .lexeme .string text →
    ∃ body, IsQuote c ∧ text = c :: (body ++ [c]) ∧ Body c (body ++ [c])) c s
    ?blank ?comment ?string ?number ?word ?symbol
  case blank => exact fun _ h => nomatch h
  case comment => exact fun r _ _ h => absurd h (Piece.scanComment_ne_lexeme r)
  case string =>
    intro hq h
    obtain ⟨body, hbody, -, rfl⟩ := Piece.scanString_eq_lexeme h
    obtain ⟨hbody, -⟩ := body_of_scanBody? hq hbody
    obtain ⟨s, rfl⟩ := hbody.exists_eq_append
    exact ⟨s, hq, rfl, hbody⟩
  case number => exact fun _ h => nomatch h
  case word =>
    intro _ h
    unfold Piece.scanWord at h
    dsimp only at h
    split at h <;> cases h
  case symbol =>
    intro _ _ _ _ h
    unfold Piece.scanSymbol at h
    split at h <;> cases h

/-- What is skipped on the way to a token has no escape sequences. -/
theorem error_ne_invalidEscape {ps : List LocatedPiece} (h : ∀ p ∈ ps, p.token? = none) :
    ∀ d ∈ diagnosticsOf ps, d.error ≠ .invalidEscape := by
  intro d hd
  obtain ⟨⟨line, p⟩, hp, hd⟩ := List.mem_flatMap.mp hd
  have herror := (LocatedPiece.mem_diagnostics.mp hd).1
  have hnone := h _ hp
  intro hinvalid
  rw [hinvalid] at herror
  cases p with
  | lexeme => cases hnone
  | longComment level body closing => cases closing <;> simp [LocatedPiece.errors] at herror
  | _ => simp [LocatedPiece.errors] at herror

theorem token?_eq_none_of_throughToken {ps qs : List LocatedPiece} {p : LocatedPiece} {t : Token}
    (h : throughToken 1 ps = qs ++ [p]) (ht : p.token? = some t) : ∀ q ∈ qs, q.token? = none := by
  have hlength : (tokensOf (throughToken 1 ps)).length ≤ 1 := by
    rw [tokensOf_throughToken]
    exact List.length_take_le 1 _
  rw [h, tokensOf, List.filterMap_append] at hlength
  simpa [ht] using hlength

/-- A lexer reports an error for just those backslashes of a string that its value keeps. -/
theorem escapesAgree {x y : Lexer} {t : Token} (h : x.next = (some t, y)) (hkind : t.kind = .string) :
    EscapesAgree x y t (parts (contents t.text.toList)) := by
  rw [x.next_eq] at h
  obtain ⟨hfirst, rfl⟩ := Prod.mk.inj h
  obtain ⟨ps, p, qs, hpieces, ht, hthrough⟩ := throughToken_one hfirst
  obtain ⟨c, s, -, hp⟩ := locate_split hpieces
  have hpiece := LocatedPiece.piece_of_token? ht
  rw [hkind] at hpiece
  obtain ⟨body, hq, htext, hbody⟩ := Piece.scan_string (c := c) (s := s) (by rw [← hpiece, hp])
  have hcontents : contents t.text.toList = body := by rw [htext, contents_quoted hq.isQuoteSized]
  rw [hcontents]
  have hdiagnostics : p.diagnostics =
      List.replicate (keptBackslashes (parts body)) ⟨.invalidEscape, t.line⟩ := by
    rw [LocatedPiece.diagnostics, hpiece, LocatedPiece.errors, List.map_replicate, htext,
      invalidEscapes_plain hq.ne_backslash, invalidEscapes_body hq hbody,
      LocatedPiece.line_of_token? ht]
  refine ⟨⟨c, hq, ?_⟩, ?_, ⟨diagnosticsOf ps, ?_, ?_⟩, keptBackslashes_eq_zero _⟩
  · rw [flatMap_source_parts, htext]
  · rw [flatMap_value_parts, StringLiteral.value, hcontents]
  · exact error_ne_invalidEscape (token?_eq_none_of_throughToken hthrough ht)
  · rw [hthrough, ← hdiagnostics]
    simp [diagnosticsOf, Lexer.passAll]

/-- A letter that may not be escaped, a line feed, and a backslash in front of the closing quote. -/
theorem escapesAgree_kept : ∃ y, (Lexer.start "'\\q\\n\\'" .empty).next =
      (some ⟨.string, "'\\q\\n\\'", 1⟩, y) ∧
    EscapesAgree (Lexer.start "'\\q\\n\\'" .empty) y ⟨.string, "'\\q\\n\\'", 1⟩
      (parts "\\q\\n\\".toList) ∧
    keptBackslashes (parts "\\q\\n\\".toList) = 2 := by
  have hnext : (Lexer.start "'\\q\\n\\'" .empty).next = (some ⟨.string, "'\\q\\n\\'", 1⟩,
      (Lexer.start "'\\q\\n\\'" .empty).next.2) := Prod.ext (by decide +kernel) rfl
  have hcontents : contents "'\\q\\n\\'".toList = "\\q\\n\\".toList := by decide +kernel
  have hagree := escapesAgree hnext rfl
  rw [hcontents] at hagree
  exact ⟨_, hnext, hagree, by decide +kernel⟩

end LuaSyntax
