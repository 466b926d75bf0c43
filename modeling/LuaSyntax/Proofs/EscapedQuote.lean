import LuaSyntax.Proofs.OnDemand

/-!
Where a string ends if every backslash escapes the character after it. A lexer goes by this rule but
for one character: a single quote is no escape sequence, so in a string between single quotes a
backslash does not keep one from ending the string.
-/
namespace LuaSyntax

namespace StringLiteral

/-- The characters that may come after a backslash. -/
def legalEscapes : List Char := ['a', 'b', 'f', 'n', 'r', 't', 'v', '"', '\\']

/-- The text through the first quote that is not escaped, if the line has one. Every backslash
escapes the character after it. -/
def throughQuote? (quote : Char) : List Char → Option (List Char)
  | [] => none
  | c :: s =>
    if c = '\n' then none
    else if c = quote then some [c]
    else if c = '\\' then
      match s with
      | [] => none
      | e :: r => if e = '\n' then none else (throughQuote? quote r).map fun body => c :: e :: body
    else (throughQuote? quote s).map (c :: ·)

/-- The characters that are escaped, up to the first quote that is not or else the end of the line. -/
def escapedIn (quote : Char) : List Char → List Char
  | [] => []
  | c :: s =>
    if c = '\n' then []
    else if c = quote then []
    else if c = '\\' then
      match s with
      | [] => []
      | e :: r => if e = '\n' then [] else e :: escapedIn quote r
    else escapedIn quote s

/-- How many characters are escaped that may not be. -/
def illegalEscapes (quote : Char) (s : List Char) : Nat :=
  (escapedIn quote s).countP (· ∉ legalEscapes)

/-- A text that a string goes on behind: no quote in it ends the string, and no backslash at its end
is left without a character. -/
inductive Passes (quote : Char) : List Char → Prop
  | nil : Passes quote []
  | escaped {e : Char} {s : List Char} :
      e ≠ '\n' → (e = quote → isEscape e = true) → Passes quote s → Passes quote ('\\' :: e :: s)
  | plain {c : Char} {s : List Char} :
      c ≠ '\n' → c ≠ quote → c ≠ '\\' → Passes quote s → Passes quote (c :: s)

/-- A line that ends here, perhaps behind a backslash. -/
inductive LineEnds : List Char → Prop
  | atEnd : LineEnds []
  | line (s : List Char) : LineEnds ('\n' :: s)
  | backslash : LineEnds ['\\']
  | backslashLine (s : List Char) : LineEnds ('\\' :: '\n' :: s)

/-- A text that a string goes no further than: it comes to a quote, which may have a backslash in
front that cannot escape it, or the line ends. -/
inductive Stops (quote : Char) : List Char → Prop
  | atQuote (s : List Char) : Stops quote (quote :: s)
  | escapedQuote (s : List Char) : isEscape quote = false → Stops quote ('\\' :: quote :: s)
  | lineEnds {s : List Char} : LineEnds s → Stops quote s

section

variable {quote c e : Char} {s u v body : List Char}

theorem isEscape_iff (e : Char) : isEscape e = true ↔ e ∈ legalEscapes := by
  unfold isEscape escapeValue?
  split <;> simp_all [legalEscapes]

theorem throughQuote?_escaped (hq : IsQuote quote) (he : e ≠ '\n') (s : List Char) :
    throughQuote? quote ('\\' :: e :: s) =
      (throughQuote? quote s).map fun body => '\\' :: e :: body := by
  rw [throughQuote?.eq_def]
  simp [hq.ne_backslash.symm, he]

theorem throughQuote?_plain (hline : c ≠ '\n') (hquote : c ≠ quote) (hslash : c ≠ '\\')
    (s : List Char) : throughQuote? quote (c :: s) = (throughQuote? quote s).map (c :: ·) := by
  rw [throughQuote?.eq_def]
  simp [hline, hquote, hslash]

theorem escapedIn_escaped (hq : IsQuote quote) (he : e ≠ '\n') (s : List Char) :
    escapedIn quote ('\\' :: e :: s) = e :: escapedIn quote s := by
  rw [escapedIn.eq_def]
  simp [hq.ne_backslash.symm, he]

theorem escapedIn_plain (hline : c ≠ '\n') (hquote : c ≠ quote) (hslash : c ≠ '\\') (s : List Char) :
    escapedIn quote (c :: s) = escapedIn quote s := by
  rw [escapedIn.eq_def]
  simp [hline, hquote, hslash]

/-- A backslash takes the next character along, whether the two are an escape sequence or not, unless
that character ends the string. -/
theorem scanBody?_escaped (hq : IsQuote quote) (hline : e ≠ '\n')
    (hquote : e = quote → isEscape e = true) (s : List Char) :
    scanBody? quote ('\\' :: e :: s) = (scanBody? quote s).map fun body => '\\' :: e :: body := by
  cases he : isEscape e with
  | true => exact scanBody?_escape hq he s
  | false =>
    have hslash : e ≠ '\\' := by
      rintro rfl
      cases he
    have hne : e ≠ quote := by
      intro h
      simp [hquote h] at he
    have hhead : ∀ e' ∈ (e :: s).head?, isEscape e' = false := by simpa using he
    rw [scanBody?_backslash hq hhead, scanBody?_plain hline hne hslash, Option.map_map]
    rfl

theorem invalidEscapes_escaped (e : Char) (s : List Char) : invalidEscapes ('\\' :: e :: s) =
    invalidEscapes s + if e ∉ legalEscapes then 1 else 0 := by
  cases he : isEscape e with
  | true =>
    have hlegal : e ∈ legalEscapes := (isEscape_iff e).mp he
    rw [invalidEscapes_escape he, if_neg (not_not_intro hlegal), Nat.add_zero]
  | false =>
    have hlegal : e ∉ legalEscapes := by simp [← isEscape_iff, he]
    have hslash : e ≠ '\\' := by
      rintro rfl
      cases he
    have hhead : ∀ e' ∈ (e :: s).head?, isEscape e' = false := by simpa using he
    rw [invalidEscapes_backslash hhead, invalidEscapes_plain hslash, if_pos hlegal]

theorem exists_passes (hq : IsQuote quote) (s : List Char) :
    ∃ u v, s = u ++ v ∧ Passes quote u ∧ Stops quote v := by
  induction s using throughQuote?.induct quote with
  | case1 => exact ⟨[], [], rfl, .nil, .lineEnds .atEnd⟩
  | case2 r => exact ⟨[], _, rfl, .nil, .lineEnds (.line r)⟩
  | case3 r _ => exact ⟨[], _, rfl, .nil, .atQuote r⟩
  | case4 => exact ⟨[], _, rfl, .nil, .lineEnds .backslash⟩
  | case5 r => exact ⟨[], _, rfl, .nil, .lineEnds (.backslashLine r)⟩
  | case6 e r hline _ _ ih =>
    obtain ⟨u, v, rfl, hu, hv⟩ := ih
    by_cases hquote : e = quote → isEscape e = true
    · exact ⟨_, v, rfl, .escaped hline hquote hu, hv⟩
    · obtain ⟨rfl, hescape⟩ : e = quote ∧ isEscape e = false := by simpa using hquote
      exact ⟨[], _, rfl, .nil, .escapedQuote _ hescape⟩
  | case7 c r hline hquote hslash ih =>
    obtain ⟨u, v, rfl, hu, hv⟩ := ih
    exact ⟨_, v, rfl, .plain hline hquote hslash hu, hv⟩

namespace Passes

theorem throughQuote?_append (hq : IsQuote quote) (h : Passes quote u) (v : List Char) :
    throughQuote? quote (u ++ v) = (throughQuote? quote v).map (u ++ ·) := by
  induction h with
  | nil => simp
  | escaped hline _ _ ih =>
    rw [List.cons_append, List.cons_append, throughQuote?_escaped hq hline, ih, Option.map_map]
    rfl
  | plain hline hquote hslash _ ih =>
    rw [List.cons_append, throughQuote?_plain hline hquote hslash, ih, Option.map_map]
    rfl

theorem scanBody?_append (hq : IsQuote quote) (h : Passes quote u) (v : List Char) :
    scanBody? quote (u ++ v) = (scanBody? quote v).map (u ++ ·) := by
  induction h with
  | nil => simp
  | escaped hline hquote _ ih =>
    rw [List.cons_append, List.cons_append, scanBody?_escaped hq hline hquote, ih, Option.map_map]
    rfl
  | plain hline hquote hslash _ ih =>
    rw [List.cons_append, scanBody?_plain hline hquote hslash, ih, Option.map_map]
    rfl

theorem escapedIn_append (hq : IsQuote quote) (h : Passes quote u) (v : List Char) :
    escapedIn quote (u ++ v) = escapedIn quote u ++ escapedIn quote v := by
  induction h with
  | nil => rfl
  | @escaped e s hline _ _ ih =>
    rw [List.cons_append, List.cons_append, escapedIn_escaped hq hline, ih,
      escapedIn_escaped hq hline, List.cons_append]
  | plain hline hquote hslash _ ih =>
    rw [List.cons_append, escapedIn_plain hline hquote hslash, ih,
      escapedIn_plain hline hquote hslash]

theorem invalidEscapes_append (hq : IsQuote quote) (h : Passes quote u) (v : List Char) :
    invalidEscapes (u ++ v) = illegalEscapes quote u + invalidEscapes v := by
  induction h with
  | nil => exact (Nat.zero_add _).symm
  | @escaped e s hline _ _ ih =>
    rw [List.cons_append, List.cons_append, invalidEscapes_escaped, ih, illegalEscapes,
      illegalEscapes, escapedIn_escaped hq hline, List.countP_cons]
    simp only [decide_eq_true_eq]
    omega
  | plain hline hquote hslash _ ih =>
    rw [List.cons_append, invalidEscapes_plain hslash, ih, illegalEscapes, illegalEscapes,
      escapedIn_plain hline hquote hslash]

theorem escapedIn_subset (hq : IsQuote quote) (h : Passes quote u) : escapedIn quote u ⊆ u := by
  induction h with
  | nil => exact List.nil_subset _
  | @escaped e s hline _ _ ih =>
    rw [escapedIn_escaped hq hline]
    exact List.subset_cons_of_subset _ (List.cons_subset_cons e ih)
  | plain hline hquote hslash _ ih =>
    rw [escapedIn_plain hline hquote hslash]
    exact List.subset_cons_of_subset _ ih

/-- A quote that cannot be escaped is not passed. -/
theorem quote_notMem (h : Passes quote u) (hq : IsQuote quote) (hescape : isEscape quote = false) :
    quote ∉ u := by
  induction h with
  | nil => simp
  | @escaped e s _ hquote _ ih =>
    have hne : e ≠ quote := by
      rintro rfl
      simp [hquote rfl] at hescape
    simp [hq.ne_backslash, hne.symm, ih]
  | plain _ hquote _ _ ih => simp [Ne.symm hquote, ih]

end Passes

/-- Where the line ends neither rule finds a string, and nothing more is escaped. -/
theorem LineEnds.eq_none (hq : IsQuote quote) (h : LineEnds v) :
    scanBody? quote v = none ∧ throughQuote? quote v = none ∧ escapedIn quote v = [] := by
  have hslash := hq.ne_backslash.symm
  cases h with
  | atEnd => exact ⟨rfl, rfl, rfl⟩
  | line s =>
    rw [scanBody?.eq_def, throughQuote?.eq_def, escapedIn.eq_def]
    simp
  | backslash =>
    rw [scanBody?_backslash hq (by simp), throughQuote?.eq_def, escapedIn.eq_def]
    simp [hslash, scanBody?]
  | backslashLine s =>
    have hline : scanBody? quote ('\n' :: s) = none := by
      rw [scanBody?.eq_def]
      simp
    rw [scanBody?_backslash hq (by simp; rfl), hline, throughQuote?.eq_def, escapedIn.eq_def]
    simp [hslash]

theorem throughQuote?_quote (hq : IsQuote quote) (s : List Char) :
    throughQuote? quote (quote :: s) = some [quote] := by
  rw [throughQuote?.eq_def]
  simp [hq.ne_newline]

theorem escapedIn_quote (s : List Char) : escapedIn quote (quote :: s) = [] := by
  rw [escapedIn.eq_def]
  simp

/-- Only a single quote is a quote that cannot be escaped. -/
theorem IsQuote.eq_of_not_isEscape (hq : IsQuote quote) (h : isEscape quote = false) :
    quote = '\'' := by
  rcases hq with rfl | rfl
  · cases h
  · rfl

/-- The rule that every backslash escapes the next character holds where no single quote is escaped
that could end the string. -/
theorem scanBody?_eq_throughQuote? (hq : IsQuote quote)
    (h : quote = '"' ∨ '\'' ∉ escapedIn quote s) :
    scanBody? quote s = throughQuote? quote s ∧
      ∀ body ∈ scanBody? quote s, invalidEscapes body = illegalEscapes quote s := by
  obtain ⟨u, v, rfl, hu, hv⟩ := exists_passes hq s
  rw [hu.escapedIn_append hq] at h
  rw [hu.scanBody?_append hq, hu.throughQuote?_append hq, illegalEscapes, hu.escapedIn_append hq]
  cases hv with
  | atQuote s =>
    rw [scanBody?_quote hq, throughQuote?_quote hq, escapedIn_quote, List.append_nil]
    refine ⟨rfl, fun body hbody => ?_⟩
    obtain rfl : u ++ [quote] = body := by simpa using hbody
    rw [hu.invalidEscapes_append hq, invalidEscapes_plain hq.ne_backslash]
    rfl
  | escapedQuote s hescape =>
    obtain rfl := hq.eq_of_not_isEscape hescape
    simp [escapedIn_escaped hq hq.ne_newline] at h
  | lineEnds hline =>
    obtain ⟨hscan, hthrough, -⟩ := hline.eq_none hq
    rw [hscan, hthrough]
    exact ⟨rfl, nofun⟩

/-- An escaped single quote ends a string between single quotes: it is the first one there is. -/
theorem scanBody?_escapedQuote (h : '\'' ∈ escapedIn '\'' s) : ∃ u v, s = u ++ '\\' :: '\'' :: v ∧
    '\'' ∉ u ∧ scanBody? '\'' s = some (u ++ ['\\', '\'']) ∧
    invalidEscapes (u ++ ['\\', '\'']) = illegalEscapes '\'' u + 1 := by
  have hq : IsQuote '\'' := .inr rfl
  obtain ⟨u, v, rfl, hu, hv⟩ := exists_passes hq s
  have hnone : '\'' ∉ u := hu.quote_notMem hq rfl
  have hpassed : '\'' ∉ escapedIn '\'' u := fun hmem => hnone (hu.escapedIn_subset hq hmem)
  rw [hu.escapedIn_append hq] at h
  cases hv with
  | atQuote s => simp [escapedIn_quote, hpassed] at h
  | escapedQuote s hescape =>
    refine ⟨u, s, rfl, hnone, ?_, ?_⟩
    · rw [hu.scanBody?_append hq, scanBody?_backslash hq (by simp; rfl), scanBody?_quote hq]
      rfl
    · rw [hu.invalidEscapes_append hq]
      rfl
  | lineEnds hline => simp [(hline.eq_none hq).2.2, hpassed] at h

end

end StringLiteral

open StringLiteral

namespace Lexer

/-- What a lexer gives that stands at a quote, if this is the text of the string behind the quote
and so many escape sequences in it are invalid. Without a text there is no string: the quote is
skipped. -/
def stringEnd (x : Lexer) (quote : Char) (body? : Option (List Char)) (invalid : Nat) :
    Option Token × Lexer :=
  match body? with
  | some body =>
    (some ⟨.string, String.ofList (quote :: body), x.cursor.line⟩,
      ⟨x.cursor.past (quote :: body),
        x.log.reportAll (List.replicate invalid ⟨.invalidEscape, x.cursor.line⟩)⟩)
  | none => Lexer.next ⟨x.cursor.past [quote], x.log.report ⟨.unclosedString, x.cursor.line⟩⟩

variable {x : Lexer} {quote : Char} {rest body : List Char}

theorem scan_quote (hq : IsQuote quote) (s : List Char) :
    Piece.scan quote s = Piece.scanString quote s := by
  rcases hq with rfl | rfl <;> rfl

theorem next_of_body (hq : IsQuote quote) (h : x.cursor.ahead = quote :: rest)
    (hbody : scanBody? quote rest = some body) :
    x.next = x.stringEnd quote (some body) (invalidEscapes body) := by
  have hscan : Piece.scan quote rest = .lexeme .string (quote :: body) := by
    rw [scan_quote hq, Piece.scanString, hbody]
  have ht : LocatedPiece.token? ⟨x.cursor.line, Piece.scan quote rest⟩ =
      some ⟨.string, String.ofList (quote :: body), x.cursor.line⟩ := by
    rw [hscan]
    rfl
  rw [next_of_token h ht, hscan]
  simp [stringEnd, pass, Piece.text, LocatedPiece.diagnostics, LocatedPiece.errors,
    invalidEscapes_plain hq.ne_backslash]

theorem next_of_no_body (hq : IsQuote quote) (h : x.cursor.ahead = quote :: rest)
    (hbody : scanBody? quote rest = none) (invalid : Nat) :
    x.next = x.stringEnd quote none invalid := by
  have hscan : Piece.scan quote rest = .openQuote quote := by
    rw [scan_quote hq, Piece.scanString, hbody]
  have ht : LocatedPiece.token? ⟨x.cursor.line, Piece.scan quote rest⟩ = none := by
    rw [hscan]
    rfl
  rw [next_of_skipped h ht, hscan]
  rfl

/-- A lexer that stands at a quote goes by the rule that a backslash escapes the character after it,
as long as it does not escape a single quote in a string between single quotes. There the string ends
at that quote, with an invalid escape sequence more. -/
theorem next_escapedQuote (hq : IsQuote quote) (h : x.cursor.ahead = quote :: rest) :
    (quote = '"' ∨ '\'' ∉ escapedIn quote rest →
      x.next = x.stringEnd quote (throughQuote? quote rest) (illegalEscapes quote rest)) ∧
    (quote = '\'' → '\'' ∈ escapedIn quote rest →
      ∃ u v, rest = u ++ '\\' :: '\'' :: v ∧ '\'' ∉ u ∧
        x.next = x.stringEnd quote (some (u ++ ['\\', '\''])) (illegalEscapes quote u + 1)) := by
  constructor
  · intro hnone
    obtain ⟨hscan, hinvalid⟩ := scanBody?_eq_throughQuote? hq hnone
    rw [← hscan]
    cases hbody : scanBody? quote rest with
    | some body => rw [next_of_body hq h hbody, hinvalid body hbody]
    | none => rw [next_of_no_body hq h hbody]
  · rintro rfl hmem
    obtain ⟨u, v, hrest, hnone, hscan, hinvalid⟩ := scanBody?_escapedQuote hmem
    exact ⟨u, v, hrest, hnone, by rw [next_of_body hq h hscan, hinvalid]⟩

/-- Two escaped quotes of the other kind, and a letter that may not be escaped. -/
theorem next_escapedQuote_double : IsQuote '\'' ∧
    (Lexer.start "'\\\"\\q\\\" x' y" .empty).cursor.ahead = '\'' :: "\\\"\\q\\\" x' y".toList ∧
    (Lexer.start "'\\\"\\q\\\" x' y" .empty).next =
      (Lexer.start "'\\\"\\q\\\" x' y" .empty).stringEnd '\'' (some "\\\"\\q\\\" x'".toList) 1 := by
  have hq : IsQuote '\'' := .inr rfl
  have hahead : (Lexer.start "'\\\"\\q\\\" x' y" .empty).cursor.ahead =
      '\'' :: "\\\"\\q\\\" x' y".toList := by decide +kernel
  have hnone : '\'' ∉ escapedIn '\'' "\\\"\\q\\\" x' y".toList := by decide +kernel
  have hend : throughQuote? '\'' "\\\"\\q\\\" x' y".toList = some "\\\"\\q\\\" x'".toList := by
    decide +kernel
  have hillegal : illegalEscapes '\'' "\\\"\\q\\\" x' y".toList = 1 := by decide +kernel
  have hnext := (next_escapedQuote hq hahead).1 (.inr hnone)
  rw [hend, hillegal] at hnext
  exact ⟨hq, hahead, hnext⟩

/-- The apostrophe of `'it\'s'` ends the string: a backslash does not keep it from that. -/
theorem tokenize_escapedQuote :
    throughQuote? '\'' "it\\'s'".toList = some "it\\'s'".toList ∧
      illegalEscapes '\'' "it\\'s'".toList = 1 ∧
      tokenize "'it\\'s'" = [⟨.string, "'it\\'", 1⟩, ⟨.name, "s", 1⟩] ∧
      diagnose "'it\\'s'" = [⟨.invalidEscape, 1⟩, ⟨.unclosedString, 1⟩] := by
  decide +kernel

end Lexer

end LuaSyntax
