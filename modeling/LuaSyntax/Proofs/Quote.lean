import LuaSyntax.Source.StringLiteral

/-!
Writing a string as a literal. Three characters are escaped, all others stand for themselves, so a
literal can hold any string.
-/
namespace LuaSyntax.StringLiteral

/-- How a character is written between double quotes. -/
def escape (c : Char) : List Char :=
  if c = '"' then ['\\', '"']
  else if c = '\\' then ['\\', '\\']
  else if c = '\n' then ['\\', 'n']
  else [c]

def encode (s : List Char) : List Char := s.flatMap escape

def quote (v : String) : String := String.ofList ('"' :: (encode v.toList ++ ['"']))

theorem encode_cons (c : Char) (s : List Char) : encode (c :: s) = escape c ++ encode s := by
  simp [encode]

theorem decode_plain {c : Char} (h : c ≠ '\\') (s : List Char) : decode (c :: s) = c :: decode s := by
  rw [decode.eq_def]
  exact if_neg h

theorem decode_known {e v : Char} (h : escapeValue? e = some v) (s : List Char) :
    decode ('\\' :: e :: s) = v :: decode s := by
  simp [decode, h]

theorem decode_unknown {e : Char} (h : escapeValue? e = none) (s : List Char) :
    decode ('\\' :: e :: s) = '\\' :: e :: decode s := by
  simp [decode, h]

theorem decode_escape (c : Char) (s : List Char) : decode (escape c ++ s) = c :: decode s := by
  unfold escape
  split
  · rename_i h
    exact decode_known (by simp [h, escapeValue?]) s
  split
  · rename_i h
    exact decode_known (by simp [h, escapeValue?]) s
  split
  · rename_i h
    exact decode_known (by simp [h, escapeValue?]) s
  · rename_i h _
    exact decode_plain h s

theorem decode_encode (s : List Char) : decode (encode s) = s := by
  induction s with
  | nil => rfl
  | cons c s ih => rw [encode_cons, decode_escape, ih]

theorem contents_quoted {q : Char} (hq : isQuoteSized q = true) (s : List Char) :
    contents (q :: (s ++ [q])) = s := by
  cases s with
  | nil => simp [contents, hq]
  | cons d s =>
    have hlast : ((d :: s) ++ [q]).getLast (by simp) = q := List.getLast_concat
    have hfront : ((d :: s) ++ [q]).dropLast = d :: s := List.dropLast_concat
    simp only [List.cons_append] at hlast hfront
    simp [contents, hlast, hfront, hq]

theorem value_quote (v : String) : value (quote v) = v := by
  have hcontents := contents_quoted (q := '"') (by decide) (encode v.toList)
  rw [value, quote, String.toList_ofList, hcontents, decode_encode, String.ofList_toList]

end LuaSyntax.StringLiteral
