import LuaSyntax.Proofs.AssignedValue
import LuaSyntax.Proofs.EscapedQuote
import LuaSyntax.Proofs.Quote

/-!
Writing a string down and reading it back. Whatever escape sequences a text is written with, a lexer
finds the end of it, has nothing to report, and the text stands for what was written.
-/
namespace LuaSyntax

namespace StringLiteral

/-- How a text may be written between quotes of a kind. -/
inductive Written (quote : Char) : List Char → List Char → Prop
  | nil : Written quote [] []
  | escape {c e : Char} {s t : List Char} :
      escapeValue? e = some c → Written quote s t → Written quote (c :: s) ('\\' :: e :: t)
  | plain {c : Char} {s t : List Char} :
      c ≠ '\n' → c ≠ quote → c ≠ '\\' → Written quote s t → Written quote (c :: s) (c :: t)

/-- How a text without single quotes is written between them. The double quote at a place is escaped
or not, as one likes. -/
def encodeSingle (escaped : Nat → Bool) (s : List Char) : List Char :=
  s.zipIdx.flatMap fun (c, i) => if c = '"' && !escaped i then [c] else escape c

def quoteSingle (escaped : Nat → Bool) (v : String) : String :=
  String.ofList ('\'' :: (encodeSingle escaped v.toList ++ ['\'']))

section

variable {quote : Char} {s t : List Char}

namespace Written

theorem body (h : Written quote s t) : Body quote (t ++ [quote]) := by
  induction h with
  | nil => exact .close
  | escape he _ ih => exact .escape (by simp [isEscape, he]) ih
  | plain hline hquote hslash _ ih => exact .plain hline hquote hslash ih

theorem invalidEscapes (hq : IsQuote quote) (h : Written quote s t) :
    invalidEscapes (t ++ [quote]) = 0 := by
  induction h with
  | nil => exact invalidEscapes_plain hq.ne_backslash []
  | escape he _ ih => simpa [invalidEscapes_escape, isEscape, he] using ih
  | plain _ _ hslash _ ih => simpa [invalidEscapes_plain hslash] using ih

theorem decode (h : Written quote s t) : decode t = s := by
  induction h with
  | nil => rfl
  | escape he _ ih => rw [decode_known he, ih]
  | plain _ _ hslash _ ih => rw [decode_plain hslash, ih]

/-- A character is escaped, or it is none that has to be. -/
theorem escape_append {c : Char} (hc : c = quote → c = '"') (h : Written quote s t) :
    Written quote (c :: s) (StringLiteral.escape c ++ t) := by
  unfold StringLiteral.escape
  split
  · rename_i hdouble
    exact .escape (by simp [hdouble, escapeValue?]) h
  split
  · rename_i hslash
    exact .escape (by simp [hslash, escapeValue?]) h
  split
  · rename_i hline
    exact .escape (by simp [hline, escapeValue?]) h
  · rename_i hdouble hslash hline
    exact .plain hline (fun hquote => hdouble (hc hquote)) hslash h

end Written

theorem written_encode (s : List Char) : Written '"' s (encode s) := by
  induction s with
  | nil => exact .nil
  | cons c s ih =>
    rw [encode_cons]
    exact ih.escape_append id

theorem written_encodeSingle (escaped : Nat → Bool) (h : '\'' ∉ s) :
    Written '\'' s (encodeSingle escaped s) := by
  unfold encodeSingle
  generalize 0 = n
  induction s generalizing n with
  | nil => exact .nil
  | cons c s ih =>
    obtain ⟨hc, hs⟩ : c ≠ '\'' ∧ '\'' ∉ s := by simpa [eq_comm] using h
    rw [List.zipIdx_cons, List.flatMap_cons]
    dsimp only
    split
    · rename_i hkept
      obtain ⟨rfl, -⟩ : c = '"' ∧ escaped n = false := by simpa using hkept
      exact .plain (by decide) hc (by decide) (ih hs (n + 1))
    · exact (ih hs (n + 1)).escape_append fun hquote => absurd hquote hc

end

end StringLiteral

open StringLiteral

/-- A literal that is read back: it is the first token of whatever begins with it, with nothing to
report, and it stands for this string, also in a program. -/
structure ReadsAs (literal v : String) : Prop where
  next (rest : String) (log : Log) : (Lexer.start (literal ++ rest) log).next =
    (some ⟨.string, literal, 1⟩, ⟨(Lexer.start (literal ++ rest) log).cursor.past literal.toList, log⟩)
  value : StringLiteral.value literal = v
  parse (log : Log) : parseInto log ("x = " ++ literal) = (.ok (assigned (.string v)), log)

theorem readsAs_of_written {quote : Char} {v : String} {t : List Char} (hq : IsQuote quote)
    (h : Written quote v.toList t) : ReadsAs (String.ofList (quote :: (t ++ [quote]))) v := by
  have hinvalid := h.invalidEscapes hq
  have hvalue : StringLiteral.value (String.ofList (quote :: (t ++ [quote]))) = v := by
    rw [StringLiteral.value, String.toList_ofList, contents_quoted hq.isQuoteSized, h.decode,
      String.ofList_toList]
  refine ⟨fun rest log => ?next, hvalue, fun log => ?parse⟩
  case next =>
    have hbody := h.body.scanBody?_append hq rest.toList
    have hahead : (Lexer.start (String.ofList (quote :: (t ++ [quote])) ++ rest) log).cursor.ahead =
        quote :: (t ++ [quote] ++ rest.toList) := by
      simp [Lexer.start, Cursor.start]
    rw [Lexer.next_of_body hq hahead hbody, hinvalid, String.toList_ofList]
    rfl
  case parse =>
    have hscan : Piece.scan quote (t ++ [quote]) = .lexeme .string (quote :: (t ++ [quote])) := by
      have hbody := h.body.scanBody?_append hq []
      rw [List.append_nil] at hbody
      rw [Lexer.scan_quote hq, Piece.scanString, hbody]
    have hliteral : Token.literal? ⟨.string, String.ofList (quote :: (t ++ [quote])), 1⟩ =
        some (.string v) := by
      simp only [Token.literal?, hvalue]
    rw [parseInto_assigned hscan hliteral]
    simp [LocatedPiece.diagnostics, LocatedPiece.errors, invalidEscapes_plain hq.ne_backslash,
      hinvalid, Log.reportAll]

/-- Every string can be written between double quotes, and a string without single quotes between
these, and is read back from there. -/
theorem quoted_readsAs (v : String) : ReadsAs (quote v) v ∧
    ('\'' ∉ v.toList → ∀ escaped : Nat → Bool, ReadsAs (quoteSingle escaped v) v) :=
  ⟨readsAs_of_written (.inl rfl) (written_encode v.toList), fun h escaped =>
    readsAs_of_written (.inr rfl) (written_encodeSingle escaped h)⟩

/-- Between single quotes, with one of the two double quotes escaped. -/
theorem quoted_readsAs_single : '\'' ∉ "\"no\"\n".toList ∧ ReadsAs "'\"no\\\"\\n'" "\"no\"\n" := by
  have hnone : '\'' ∉ "\"no\"\n".toList := by decide
  have hread := (quoted_readsAs "\"no\"\n").2 hnone (· = 3)
  have hliteral : quoteSingle (· = 3) "\"no\"\n" = "'\"no\\\"\\n'" := by decide +kernel
  exact ⟨hnone, hliteral ▸ hread⟩

end LuaSyntax
