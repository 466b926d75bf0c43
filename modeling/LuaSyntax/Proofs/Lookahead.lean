import LuaSyntax.Proofs.Scan
import LuaSyntax.Source.Reading

/-!
How far a scan looks. It never looks beyond a blank to find a token, nor beyond a line feed to find
anything but a long comment; and it finds a token again in the token's own text. So a token is the
same whatever stands behind the blank after it.
-/
namespace LuaSyntax

variable {b c q : Char} {s t : List Char}

/-- A text without some character does not reach beyond that character. -/
theorem prefix_append_cons {l : List Char} (hb : b ∉ l) : l <+: s ++ b :: t ↔ l <+: s := by
  refine ⟨fun h => ?_, fun h => h.trans (List.prefix_append _ _)⟩
  induction l generalizing s with
  | nil => exact List.nil_prefix
  | cons d l ih =>
    have hd : b ≠ d := fun h => hb (by simp [h])
    have hl : b ∉ l := fun h => hb (by simp [h])
    cases s with
    | nil => exact absurd (List.cons_prefix_cons.mp h).1.symm hd
    | cons e s =>
      obtain ⟨rfl, hrest⟩ := List.cons_prefix_cons.mp h
      exact List.cons_prefix_cons.mpr ⟨rfl, ih hl hrest⟩

theorem takeWhile_append_cons {p : Char → Bool} (hb : p b = false) (s t : List Char) :
    (s ++ b :: t).takeWhile p = s.takeWhile p := by
  induction s with
  | nil => simp [hb]
  | cons c s ih => by_cases hc : p c = true <;> simp [hc, ih]

theorem takeWhile_append_of_head {p : Char → Bool} (hs : ∀ c ∈ s, p c = true)
    (ht : ∀ c ∈ t.head?, p c = false) : (s ++ t).takeWhile p = s := by
  rw [List.takeWhile_append_of_pos hs]
  cases t with
  | nil => simp
  | cons c t => simp [ht c rfl]

theorem isAlpha_iff : c.isAlpha = true ↔ 'A' ≤ c ∧ c ≤ 'Z' ∨ 'a' ≤ c ∧ c ≤ 'z' := by
  have halpha : c.isAlpha = (decide ('A' ≤ c ∧ c ≤ 'Z') || decide ('a' ≤ c) && decide (c ≤ 'z')) :=
    rfl
  simp [halpha]

theorem isBlank_iff : isBlank b = true ↔ b = ' ' ∨ b = '\t' ∨ b = '\r' ∨ b = '\n' := by
  simp [isBlank, or_assoc]

/-- What holds of the four blanks holds of every blank. -/
theorem forall_blank {P : Char → Prop} (hspace : P ' ') (htab : P '\t') (hreturn : P '\r')
    (hline : P '\n') (hb : isBlank b = true) : P b := by
  rcases isBlank_iff.mp hb with rfl | rfl | rfl | rfl
  · exact hspace
  · exact htab
  · exact hreturn
  · exact hline

/-- A blank belongs to no number and no word. -/
theorem not_literal_of_isBlank (hb : isBlank b = true) : b.isDigit = false ∧ isHexDigit b = false ∧
    isWordChar b = false ∧ b ∉ ['.', 'e', 'E', 'x', '+', '-', '0'] := by
  refine forall_blank (P := fun b => b.isDigit = false ∧ isHexDigit b = false ∧
    isWordChar b = false ∧ b ∉ ['.', 'e', 'E', 'x', '+', '-', '0']) ?_ ?_ ?_ ?_ hb <;> decide

namespace ExponentPart

/-- The spelling of an exponent: a letter, at most a sign, and some digits. -/
structure WellFormed (e : ExponentPart) : Prop where
  letter : e.letter = 'e' ∨ e.letter = 'E'
  sign : ∀ c ∈ e.sign, c = '+' ∨ c = '-'
  digits_ne_nil : e.digits ≠ []
  digits : ∀ c ∈ e.digits, c.isDigit = true

theorem wellFormed_of_scan? {e : ExponentPart} (h : scan? s = some e) : e.WellFormed := by
  cases s with
  | nil => cases h
  | cons c s =>
    simp only [scan?, Option.ite_none_right_eq_some, Bool.and_eq_true, Bool.or_eq_true,
      decide_eq_true_eq, Bool.not_eq_true', List.isEmpty_eq_false_iff, Option.some.injEq] at h
    obtain ⟨⟨hletter, hdigits⟩, rfl⟩ := h
    refine ⟨hletter, ?_, hdigits, fun d hd => List.all_eq_true.mp List.all_takeWhile d hd⟩
    unfold splitSign
    split <;> simp

theorem splitSign_append_digits {sign : Option Char} {digits : List Char}
    (hsign : ∀ c ∈ sign, c = '+' ∨ c = '-') (hne : digits ≠ [])
    (hdigits : ∀ c ∈ digits, c.isDigit = true) (r : List Char) :
    splitSign (sign.toList ++ (digits ++ r)) = (sign, digits ++ r) := by
  cases sign with
  | some c => rcases hsign c rfl with rfl | rfl <;> rfl
  | none =>
    obtain ⟨d, digits, rfl⟩ := List.exists_cons_of_ne_nil hne
    have hd := hdigits d (by simp)
    rw [Option.toList_none, List.nil_append, List.cons_append]
    unfold splitSign
    split <;> simp_all

theorem WellFormed.scan?_text {e : ExponentPart} (h : e.WellFormed) : scan? e.text = some e := by
  have hsplit : splitSign (e.sign.toList ++ e.digits) = (e.sign, e.digits) := by
    simpa using splitSign_append_digits h.sign h.digits_ne_nil h.digits []
  have hdigits : e.digits.takeWhile Char.isDigit = e.digits := by
    simpa using takeWhile_append_of_head (t := []) h.digits (by simp)
  have hne := h.digits_ne_nil
  simp [text, scan?, hsplit, hdigits, h.letter, hne]

theorem splitSign_append_blank (hb : isBlank b = true) (s t : List Char) :
    splitSign (s ++ b :: t) = ((splitSign s).1, (splitSign s).2 ++ b :: t) := by
  obtain ⟨-, -, -, hmem⟩ := not_literal_of_isBlank hb
  cases s with
  | nil =>
    rw [List.nil_append]
    unfold splitSign
    split <;> simp_all
  | cons c s =>
    by_cases hplus : c = '+'
    · subst hplus
      rfl
    by_cases hminus : c = '-'
    · subst hminus
      rfl
    · simp [splitSign, hplus, hminus]

theorem scan?_append_blank (hb : isBlank b = true) (s t : List Char) :
    scan? (s ++ b :: t) = scan? s := by
  obtain ⟨hdigit, -, -, hmem⟩ := not_literal_of_isBlank hb
  cases s with
  | nil =>
    have hletter : b ≠ 'e' ∧ b ≠ 'E' := by simp_all
    simp [scan?, hletter]
  | cons c s =>
    simp only [List.cons_append, scan?, splitSign_append_blank hb, takeWhile_append_cons hdigit]

end ExponentPart

namespace NumberLiteral

/-- The spelling of a number: some digits, digits after a point, and an exponent. -/
def WellFormed : NumberLiteral → Prop
  | hexadecimal digits => digits ≠ [] ∧ ∀ c ∈ digits, isHexDigit c = true
  | decimal whole fraction exponent =>
    whole ≠ [] ∧ (∀ c ∈ whole, c.isDigit = true) ∧ (∀ c ∈ fraction, c.isDigit = true) ∧
      ∀ e ∈ exponent, e.WellFormed

theorem scan_of_not_hexadecimal (h : ∀ r, s ≠ '0' :: 'x' :: r) : scan s = scanDecimal s := by
  unfold scan
  split
  · exact absurd rfl (h _)
  · rfl

theorem wellFormed_scanDecimal (hc : c.isDigit = true) (s : List Char) :
    (scanDecimal (c :: s)).WellFormed := by
  refine ⟨by simp [hc], fun d hd => List.all_eq_true.mp List.all_takeWhile d hd, ?_,
    fun e he => ExponentPart.wellFormed_of_scan? he⟩
  unfold scanFraction
  split
  · exact fun d hd => List.all_eq_true.mp List.all_takeWhile d hd
  · simp

theorem wellFormed_scan (hc : c.isDigit = true) (s : List Char) : (scan (c :: s)).WellFormed := by
  unfold scan
  split
  · rename_i r hs
    obtain ⟨rfl, rfl⟩ := List.cons.inj hs
    dsimp only
    split
    · exact wellFormed_scanDecimal hc _
    · rename_i hne
      exact ⟨by simpa using hne, fun d hd => List.all_eq_true.mp List.all_takeWhile d hd⟩
  · exact wellFormed_scanDecimal hc s

theorem scanFraction_append_blank (hb : isBlank b = true) (s t : List Char) :
    scanFraction (s ++ b :: t) = scanFraction s := by
  obtain ⟨hdigit, -, -, hmem⟩ := not_literal_of_isBlank hb
  cases s with
  | nil =>
    have hpoint : b ≠ '.' := by simp_all
    simp [scanFraction, hpoint]
  | cons c s =>
    by_cases hc : c = '.'
    · subst hc
      exact takeWhile_append_cons hdigit s t
    · simp [scanFraction, hc]

/-- A fraction is found behind a point. -/
theorem length_scanFraction_lt (h : (scanFraction s).isEmpty = false) :
    (scanFraction s).length < s.length := by
  unfold scanFraction at h ⊢
  split
  · exact Nat.lt_succ_of_le (List.takeWhile_prefix _).length_le
  · simp at h

theorem scanDecimal_append_blank (hb : isBlank b = true) (s t : List Char) :
    scanDecimal (s ++ b :: t) = scanDecimal s := by
  obtain ⟨hdigit, -, -, -⟩ := not_literal_of_isBlank hb
  have hwhole : (s ++ b :: t).takeWhile Char.isDigit = s.takeWhile Char.isDigit :=
    takeWhile_append_cons hdigit s t
  have hle : (s.takeWhile Char.isDigit).length ≤ s.length := (List.takeWhile_prefix _).length_le
  unfold scanDecimal
  simp only [hwhole, List.drop_append_of_le_length hle, scanFraction_append_blank hb]
  generalize s.drop (s.takeWhile Char.isDigit).length = rest
  by_cases hempty : (scanFraction rest).isEmpty = true
  · rw [if_pos hempty, if_pos hempty, ExponentPart.scan?_append_blank hb]
  · have hlt := length_scanFraction_lt (by simpa using hempty)
    rw [if_neg hempty, if_neg hempty, List.drop_append_of_le_length hlt,
      ExponentPart.scan?_append_blank hb]

theorem scan_append_blank (hb : isBlank b = true) (s t : List Char) :
    scan (s ++ b :: t) = scan s := by
  obtain ⟨-, hhex, -, hmem⟩ := not_literal_of_isBlank hb
  by_cases hs : ∃ r, s = '0' :: 'x' :: r
  · obtain ⟨r, rfl⟩ := hs
    have hdecimal := scanDecimal_append_blank hb ('0' :: 'x' :: r) t
    simp only [List.cons_append] at hdecimal
    simp only [List.cons_append, scan, takeWhile_append_cons hhex, hdecimal]
  · have hplain : ∀ r, s ≠ '0' :: 'x' :: r := fun r hr => hs ⟨r, hr⟩
    rw [scan_of_not_hexadecimal hplain, scan_of_not_hexadecimal ?_, scanDecimal_append_blank hb]
    intro r hr
    match s, hr with
    | [], hr => simp_all
    | [c], hr => simp_all
    | c :: d :: s, hr => simp_all

theorem scanFraction_of_head (h : ∀ c ∈ s.head?, c ≠ '.') : scanFraction s = [] := by
  unfold scanFraction
  split
  · exact absurd rfl (h '.' rfl)
  · rfl

theorem scanDecimal_text {whole fraction : List Char} {exponent : Option ExponentPart}
    (h : (decimal whole fraction exponent).WellFormed) :
    scanDecimal (decimal whole fraction exponent).text = .decimal whole fraction exponent := by
  obtain ⟨-, hwhole, hfraction, hexponent⟩ := h
  have hscan : ExponentPart.scan? ((exponent.map ExponentPart.text).getD []) = exponent := by
    cases exponent with
    | none => rfl
    | some e => exact (hexponent e rfl).scan?_text
  -- the whole part and the fraction end where the exponent begins
  have hletter : ∀ c ∈ ((exponent.map ExponentPart.text).getD []).head?, c = 'e' ∨ c = 'E' := by
    cases exponent with
    | none => simp
    | some e => simpa [ExponentPart.text] using (hexponent e rfl).letter
  rw [text]
  generalize (exponent.map ExponentPart.text).getD [] = rest at hletter hscan
  have hdigit : ∀ c ∈ rest.head?, c.isDigit = false := by
    intro c hc
    rcases hletter c hc with rfl | rfl <;> decide
  have hpoint : ∀ c ∈ rest.head?, c ≠ '.' := by
    intro c hc
    rcases hletter c hc with rfl | rfl <;> decide
  cases fraction with
  | nil =>
    have htake : (whole ++ rest).takeWhile Char.isDigit = whole :=
      takeWhile_append_of_head hwhole hdigit
    simp [scanDecimal, htake, scanFraction_of_head hpoint, hscan]
  | cons d f =>
    have htake : (whole ++ '.' :: (d :: f ++ rest)).takeWhile Char.isDigit = whole :=
      takeWhile_append_of_head hwhole (by simp)
    have hfrac : (d :: f ++ rest).takeWhile Char.isDigit = d :: f :=
      takeWhile_append_of_head hfraction hdigit
    simp only [List.cons_append] at htake hfrac
    simp [scanDecimal, htake, scanFraction, hfrac, hscan]

/-- No decimal literal has the mark of a hexadecimal one. -/
theorem notMem_text_decimal {whole fraction : List Char} {exponent : Option ExponentPart}
    (h : (decimal whole fraction exponent).WellFormed) :
    'x' ∉ (decimal whole fraction exponent).text := by
  obtain ⟨-, hwhole, hfraction, hexponent⟩ := h
  have hdigits {ds : List Char} (hds : ∀ c ∈ ds, c.isDigit = true) : 'x' ∉ ds := fun hx =>
    absurd (hds 'x' hx) (by decide)
  have hexp : 'x' ∉ (exponent.map ExponentPart.text).getD [] := by
    cases exponent with
    | none => simp
    | some e =>
      have he := hexponent e rfl
      have hletter : 'x' ≠ e.letter := by rcases he.letter with hl | hl <;> rw [hl] <;> decide
      have hsign : e.sign ≠ some 'x' := fun hs => absurd (he.sign 'x' hs) (by decide)
      simp [ExponentPart.text, hletter, hsign, hdigits he.digits]
  have hfrac : 'x' ∉ (if fraction.isEmpty then [] else '.' :: fraction) := by
    split
    · simp
    · simp [hdigits hfraction]
  simp only [text, List.mem_append, hdigits hwhole, hfrac, hexp, or_self, not_false_eq_true]

theorem scan_text {l : NumberLiteral} (h : l.WellFormed) : scan l.text = l := by
  cases l with
  | hexadecimal digits =>
    have htake : digits.takeWhile isHexDigit = digits := by
      simpa using takeWhile_append_of_head (t := []) h.2 (by simp)
    simp [text, scan, htake, h.1]
  | decimal whole fraction exponent =>
    have hplain : ∀ r, (decimal whole fraction exponent).text ≠ '0' :: 'x' :: r := fun r hr =>
      notMem_text_decimal h (by simp [hr])
    rw [scan_of_not_hexadecimal hplain, scanDecimal_text h]

end NumberLiteral

namespace Symbol

theorem notMem_chars_of_isBlank (hb : isBlank b = true) (y : Symbol) : b ∉ y.chars := by
  refine forall_blank (P := fun b => b ∉ y.chars) ?_ ?_ ?_ ?_ hb <;> cases y <;> decide

theorem scan?_append_blank (hb : isBlank b = true) (s t : List Char) :
    scan? (s ++ b :: t) = scan? s := by
  have hsame (y : Symbol) : y.chars.isPrefixOf (s ++ b :: t) = y.chars.isPrefixOf s := by
    rw [Bool.eq_iff_iff, List.isPrefixOf_iff_prefix, List.isPrefixOf_iff_prefix]
    exact prefix_append_cons (notMem_chars_of_isBlank hb y)
  simp only [scan?, hsame]

theorem scan?_chars (y : Symbol) : scan? y.chars = some y := by cases y <;> rfl

end Symbol

theorem longBracketLevel?_append_cons (hb : b ≠ '=') {k : Char} (hk : k ≠ '=') (hbk : b ≠ k)
    (s t : List Char) : longBracketLevel? k (s ++ b :: t) = longBracketLevel? k s := by
  have hmem (n : Nat) : b ∉ longBracket k n := by simp [longBracket, hb, hbk]
  refine Option.ext fun n => ?_
  rw [longBracketLevel?_eq_some hk, longBracketLevel?_eq_some hk, prefix_append_cons (hmem n)]

/-- A long comment that is closed ends where it ends. -/
theorem scanLongComment_append_newline (h : (scanLongComment s).2 ≠ none) (t : List Char) :
    scanLongComment (s ++ '\n' :: t) = scanLongComment s := by
  induction s with
  | nil => exact absurd rfl h
  | cons c s ih =>
    have hsame : longBracketLevel? ']' (c :: (s ++ '\n' :: t)) = longBracketLevel? ']' (c :: s) :=
      longBracketLevel?_append_cons (by decide) (by decide) (by decide) (c :: s) t
    cases hlevel : longBracketLevel? ']' (c :: s) with
    | some n => rw [scanLongComment_of_level hlevel, List.cons_append,
        scanLongComment_of_level (hsame.trans hlevel)]
    | none =>
      rw [scanLongComment_cons hlevel] at h ⊢
      rw [List.cons_append, scanLongComment_cons (hsame.trans hlevel), ih h]

theorem StringLiteral.scanBody?_append_newline (hq : IsQuote q) (s t : List Char) :
    scanBody? q (s ++ '\n' :: t) = scanBody? q s := by
  refine Option.ext fun body => ?_
  rw [scanBody?_eq_some hq, scanBody?_eq_some hq]
  exact and_congr_right fun hbody => prefix_append_cons (hbody.newline_notMem hq)

namespace Piece

/-- Two texts behind a character are scanned alike if what is looked for is found alike in both. Of
the piece that is found in the first one something may be known. -/
theorem scan_congr {P : Piece → Prop} (h : P (scan c s))
    (dash : c = '-' → (s.head? = some '-' ↔ t.head? = some '-'))
    (comment : ∀ r v, s = '-' :: r → t = '-' :: v → P (scanComment r) →
      scanComment r = scanComment v)
    (string : StringLiteral.IsQuote c → P (scanString c s) → scanString c s = scanString c t)
    (number : c.isDigit = true → P (scanNumber (c :: s)) →
      scanNumber (c :: s) = scanNumber (c :: t))
    (word : P (scanWord (c :: s)) → scanWord (c :: s) = scanWord (c :: t))
    (symbol : P (scanSymbol c s) → scanSymbol c s = scanSymbol c t) : scan c s = scan c t := by
  have hdashes : (c = '-' && s.head? = some '-') = (c = '-' && t.head? = some '-') := by
    by_cases hc : c = '-'
    · simp [hc, dash hc]
    · simp [hc]
  unfold scan at h ⊢
  rw [← hdashes]
  split at h
  · rename_i hblank
    rw [if_pos hblank, if_pos hblank]
  rename_i hblank
  rw [if_neg hblank, if_neg hblank]
  split at h
  · rename_i hcomment
    have hboth := hcomment
    rw [hdashes] at hboth
    simp only [Bool.and_eq_true, decide_eq_true_eq] at hcomment hboth
    obtain ⟨r, rfl⟩ := List.head?_eq_some_iff.mp hcomment.2
    obtain ⟨v, rfl⟩ := List.head?_eq_some_iff.mp hboth.2
    simpa [hcomment.1] using comment r v rfl rfl h
  rename_i hcomment
  rw [if_neg hcomment, if_neg hcomment]
  split at h
  · rename_i hquote
    rw [if_pos hquote, if_pos hquote, string (by simpa [StringLiteral.IsQuote] using hquote) h]
  rename_i hquote
  rw [if_neg hquote, if_neg hquote]
  split at h
  · rename_i hdigit
    rw [if_pos hdigit, if_pos hdigit, number hdigit h]
  rename_i hdigit
  rw [if_neg hdigit, if_neg hdigit]
  split at h
  · rename_i hword
    rw [if_pos hword, if_pos hword, word h]
  · rename_i hword
    rw [if_neg hword, if_neg hword, symbol h]

/-- Only comments and strings can reach beyond a blank. -/
theorem scan_append_blank {P : Piece → Prop} (h : P (scan c s)) (hb : isBlank b = true)
    (comment : ∀ r, P (scanComment r) → scanComment r = scanComment (r ++ b :: t))
    (string : StringLiteral.IsQuote c → P (scanString c s) →
      scanString c s = scanString c (s ++ b :: t)) : scan c s = scan c (s ++ b :: t) := by
  obtain ⟨-, -, hwordChar, hmem⟩ := not_literal_of_isBlank hb
  refine scan_congr h ?dash ?comment string ?number ?word ?symbol
  case dash =>
    rintro rfl
    cases s with
    | nil =>
      have hdash : b ≠ '-' := by simp_all
      simp [hdash]
    | cons d s => simp
  case comment =>
    rintro r v rfl hv hr
    obtain ⟨-, rfl⟩ := List.cons.inj hv
    exact comment r hr
  case number =>
    intro _ _
    have hsame := NumberLiteral.scan_append_blank hb (c :: s) t
    rw [List.cons_append] at hsame
    rw [scanNumber, scanNumber, hsame]
  case word =>
    intro _
    have hsame := takeWhile_append_cons hwordChar (c :: s) t
    rw [List.cons_append] at hsame
    rw [scanWord, scanWord, hsame]
  case symbol =>
    intro _
    have hsame := Symbol.scan?_append_blank hb (c :: s) t
    rw [List.cons_append] at hsame
    rw [scanSymbol, scanSymbol, hsame]

theorem scanComment_append_newline (h : .unclosedComment ∉ LocatedPiece.errors (scanComment s))
    (t : List Char) : scanComment s = scanComment (s ++ '\n' :: t) := by
  have hsame : longBracketLevel? '[' (s ++ '\n' :: t) = longBracketLevel? '[' s :=
    longBracketLevel?_append_cons (by decide) (by decide) (by decide) s t
  unfold scanComment at h ⊢
  rw [hsame]
  cases hlevel : longBracketLevel? '[' s with
  | none => exact congrArg lineComment (takeWhile_append_cons (by decide) s t).symm
  | some level =>
    obtain ⟨r, rfl⟩ := longBracket_prefix hlevel
    have hclosed : (scanLongComment r).2 ≠ none := by
      intro hnone
      rw [hlevel] at h
      dsimp only at h
      rw [drop_longBracket] at h
      exact h (by simp [hnone, LocatedPiece.errors])
    dsimp only
    rw [List.append_assoc, drop_longBracket, drop_longBracket,
      scanLongComment_append_newline hclosed]

/-- Only a long comment that is not closed can reach beyond a line feed. -/
theorem scan_append_newline (h : .unclosedComment ∉ LocatedPiece.errors (scan c s))
    (t : List Char) : scan c (s ++ '\n' :: t) = scan c s := by
  refine (scan_append_blank (P := fun p => .unclosedComment ∉ LocatedPiece.errors p) h (by decide)
    (fun r hr => scanComment_append_newline hr t) fun hq _ => ?_).symm
  rw [scanString, scanString, StringLiteral.scanBody?_append_newline hq]

section

variable {kind : TokenKind} {text w : List Char}

theorem scanComment_ne_lexeme (s : List Char) : scanComment s ≠ .lexeme kind text := by
  unfold scanComment
  split <;> simp

theorem scanString_eq_lexeme (h : scanString q s = .lexeme kind text) :
    ∃ body, StringLiteral.scanBody? q s = some body ∧ kind = .string ∧ text = q :: body := by
  unfold scanString at h
  split at h
  · rename_i body hbody
    obtain ⟨rfl, rfl⟩ := Piece.lexeme.inj h
    exact ⟨body, hbody, rfl, rfl⟩
  · cases h

theorem scanString_append (hq : StringLiteral.IsQuote q) (h : scanString q s = .lexeme kind text)
    (t : List Char) : scanString q (s ++ t) = .lexeme kind text := by
  obtain ⟨body, hbody, rfl, rfl⟩ := scanString_eq_lexeme h
  obtain ⟨hgrammar, r, rfl⟩ := StringLiteral.body_of_scanBody? hq hbody
  rw [scanString, List.append_assoc, hgrammar.scanBody?_append hq]

/-- A token ends at the latest where a blank stands. -/
theorem scan_lexeme_append_blank (h : scan c s = .lexeme kind text) (hb : isBlank b = true)
    (t : List Char) : scan c (s ++ b :: t) = .lexeme kind text := by
  rw [← h]
  refine (scan_append_blank (P := (· = .lexeme kind text)) h hb
    (fun r hr => absurd hr (scanComment_ne_lexeme r)) fun hq hstring => ?_).symm
  rw [hstring, scanString_append hq hstring]

/-! A token is found in its own text. -/

theorem scanString_lexeme (hq : StringLiteral.IsQuote c)
    (h : scanString c s = .lexeme kind (c :: w)) : scanString c w = .lexeme kind (c :: w) := by
  obtain ⟨body, hbody, rfl, htext⟩ := scanString_eq_lexeme h
  obtain ⟨-, rfl⟩ := List.cons.inj htext
  obtain ⟨hgrammar, -⟩ := StringLiteral.body_of_scanBody? hq hbody
  have hagain : StringLiteral.scanBody? c (w ++ []) = some w := hgrammar.scanBody?_append hq []
  rw [List.append_nil] at hagain
  rw [scanString, hagain]

theorem scanNumber_lexeme (hdigit : c.isDigit = true)
    (h : scanNumber (c :: s) = .lexeme kind text) : scanNumber text = .lexeme kind text := by
  obtain ⟨rfl, rfl⟩ := Piece.lexeme.inj h
  have hagain := NumberLiteral.scan_text (NumberLiteral.wellFormed_scan hdigit s)
  rw [scanNumber, hagain]

theorem scanWord_lexeme (h : scanWord s = .lexeme kind text) :
    scanWord text = .lexeme kind text := by
  have htext : s.takeWhile isWordChar = text := by rw [← text_scanWord, h, Piece.text]
  have hall : ∀ d ∈ text, isWordChar d = true := fun d hd =>
    List.all_eq_true.mp List.all_takeWhile d (htext.symm ▸ hd)
  have hagain : text.takeWhile isWordChar = text := by
    simpa using takeWhile_append_of_head (t := []) hall (by simp)
  rw [← h, scanWord, scanWord, htext, hagain]

theorem scanSymbol_lexeme (h : scanSymbol c s = .lexeme kind (c :: w)) :
    scanSymbol c w = .lexeme kind (c :: w) := by
  rw [scanSymbol] at h
  cases hy : Symbol.scan? (c :: s) with
  | none => simp [hy] at h
  | some y =>
    rw [hy] at h
    obtain ⟨rfl, htext⟩ := Piece.lexeme.inj h
    rw [scanSymbol, ← htext, Symbol.scan?_chars]

theorem scan_lexeme (h : scan c s = .lexeme kind (c :: w)) : scan c w = .lexeme kind (c :: w) := by
  have hprefix : c :: w <+: c :: s := by simpa [h, text] using text_scan_prefix c s
  obtain ⟨r, rfl⟩ := (List.cons_prefix_cons.mp hprefix).2
  rw [← h]
  refine (scan_congr (P := (· = .lexeme kind (c :: w))) h ?dash ?comment ?string ?number ?word
    ?symbol).symm
  case dash =>
    rintro rfl
    cases w with
    | nil =>
      -- two dashes would begin a comment
      have hdash : r.head? ≠ some '-' := by
        intro hr
        obtain ⟨v, rfl⟩ := List.head?_eq_some_iff.mp hr
        exact scanComment_ne_lexeme v h
      simpa using hdash
    | cons d w => simp
  case comment => exact fun r _ _ _ hr => absurd hr (scanComment_ne_lexeme r)
  case string => exact fun hq hstring => hstring.trans (scanString_lexeme hq hstring).symm
  case number => exact fun hdigit hnumber => hnumber.trans (scanNumber_lexeme hdigit hnumber).symm
  case word => exact fun hword => hword.trans (scanWord_lexeme hword).symm
  case symbol => exact fun hsymbol => hsymbol.trans (scanSymbol_lexeme hsymbol).symm

end

end Piece

end LuaSyntax
