import LuaSyntax.Proofs.StringBody
import LuaSyntax.Source.Scan

/-!
What is found at the front of a text. Each piece is written there as it stands, so a text falls into
its pieces with nothing left out; a long bracket and the body of a string are found where they are,
and nowhere else.
-/
namespace LuaSyntax

theorem takeWhile_append_drop (p : Char → Bool) (s : List Char) :
    s.takeWhile p ++ s.drop (s.takeWhile p).length = s :=
  List.prefix_iff_eq_append.mp (List.takeWhile_prefix p)

theorem drop_longBracket (b : Char) (n : Nat) (r : List Char) :
    (longBracket b n ++ r).drop (n + 2) = r := by
  have hlength : (longBracket b n).length = n + 2 := by simp [longBracket]
  rw [← hlength, List.drop_left]

theorem longBracketLevel?_append {b : Char} (hb : b ≠ '=') (n : Nat) (r : List Char) :
    longBracketLevel? b (longBracket b n ++ r) = some n := by
  have htake : (List.replicate n '=' ++ b :: r).takeWhile (· = '=') = List.replicate n '=' := by
    rw [List.takeWhile_append_of_pos (by simp), List.takeWhile_cons_of_neg (by simpa using hb),
      List.append_nil]
  simp [longBracket, longBracketLevel?, htake]

theorem longBracket_prefix {b : Char} {s : List Char} {n : Nat}
    (h : longBracketLevel? b s = some n) : longBracket b n <+: s := by
  cases s with
  | nil => cases h
  | cons c s =>
    simp only [longBracketLevel?, Option.ite_none_right_eq_some, Bool.and_eq_true,
      decide_eq_true_eq, Option.some.injEq] at h
    obtain ⟨⟨rfl, hclose⟩, rfl⟩ := h
    obtain ⟨r, hr⟩ : ∃ r, s.drop (s.takeWhile (· = '=')).length = c :: r :=
      List.head?_eq_some_iff.mp hclose
    have hlevel : s.takeWhile (· = '=') = List.replicate (s.takeWhile (· = '=')).length '=' :=
      List.eq_replicate_iff.mpr ⟨rfl, fun d hd => by
        simpa using List.all_eq_true.mp List.all_takeWhile d hd⟩
    have hs : s.takeWhile (· = '=') ++ c :: r = s := by
      rw [← hr]
      exact takeWhile_append_drop _ s
    refine ⟨r, ?_⟩
    rw [longBracket, ← hlevel, List.append_assoc, List.cons_append]
    exact congrArg (c :: ·) hs

theorem longBracketLevel?_eq_some {b : Char} (hb : b ≠ '=') {s : List Char} {n : Nat} :
    longBracketLevel? b s = some n ↔ longBracket b n <+: s := by
  refine ⟨fun hlevel => longBracket_prefix hlevel, ?_⟩
  rintro ⟨r, rfl⟩
  exact longBracketLevel?_append hb n r

theorem longBracketLevel?_eq_none {b : Char} (hb : b ≠ '=') {s : List Char} :
    longBracketLevel? b s = none ↔ ∀ n, ¬ longBracket b n <+: s := by
  rw [Option.eq_none_iff_forall_ne_some]
  exact forall_congr' fun n => not_congr (longBracketLevel?_eq_some hb)

theorem scanLongComment_of_level {s : List Char} {n : Nat}
    (h : longBracketLevel? ']' s = some n) : scanLongComment s = ([], some n) := by
  cases s with
  | nil => cases h
  | cons c s => simp [scanLongComment, h]

theorem scanLongComment_cons {c : Char} {s : List Char}
    (h : longBracketLevel? ']' (c :: s) = none) :
    scanLongComment (c :: s) = (c :: (scanLongComment s).1, (scanLongComment s).2) := by
  simp [scanLongComment, h]

/-- The body of a comment ends where a closing long bracket stands, or else with the text. -/
theorem scanLongComment_append (s : List Char) :
    ∃ r, s = (scanLongComment s).1 ++
      ((scanLongComment s).2.map (longBracket ']')).getD [] ++ r ∧
      ((scanLongComment s).2 = none → r = []) := by
  induction s with
  | nil => exact ⟨[], rfl, fun _ => rfl⟩
  | cons c s ih =>
    cases hlevel : longBracketLevel? ']' (c :: s) with
    | some n =>
      obtain ⟨r, hr⟩ := longBracket_prefix hlevel
      rw [scanLongComment_of_level hlevel]
      exact ⟨r, hr.symm, nofun⟩
    | none =>
      obtain ⟨r, hr, hend⟩ := ih
      rw [scanLongComment_cons hlevel]
      exact ⟨r, congrArg (c :: ·) hr, hend⟩

/-- It ends at the first one: none starts earlier, and if there is no end there is none at all. -/
theorem scanLongComment_first {s u v : List Char} {m : Nat} (h : s = u ++ longBracket ']' m ++ v) :
    (scanLongComment s).1.length ≤ u.length ∧ (scanLongComment s).2 ≠ none := by
  induction u generalizing s with
  | nil =>
    have hlevel : longBracketLevel? ']' s = some m := by
      rw [h]
      exact longBracketLevel?_append (by decide) m v
    simp [scanLongComment_of_level hlevel]
  | cons c u ih =>
    obtain rfl : s = c :: (u ++ longBracket ']' m ++ v) := by simpa using h
    cases hlevel : longBracketLevel? ']' (c :: (u ++ longBracket ']' m ++ v)) with
    | some n =>
      rw [scanLongComment_of_level hlevel]
      exact ⟨Nat.zero_le _, nofun⟩
    | none =>
      obtain ⟨hle, hne⟩ := ih rfl
      rw [scanLongComment_cons hlevel]
      exact ⟨Nat.succ_le_succ hle, hne⟩

namespace ExponentPart

theorem splitSign_append (s : List Char) : (splitSign s).1.toList ++ (splitSign s).2 = s := by
  unfold splitSign
  split <;> rfl

theorem text_prefix {s : List Char} {e : ExponentPart} (h : scan? s = some e) : e.text <+: s := by
  cases s with
  | nil => cases h
  | cons c s =>
    simp only [scan?, Option.ite_none_right_eq_some, Option.some.injEq] at h
    obtain ⟨-, rfl⟩ := h
    refine List.cons_prefix_cons.mpr ⟨rfl, ?_⟩
    have hdigits : (splitSign s).2.takeWhile Char.isDigit <+: (splitSign s).2 :=
      List.takeWhile_prefix _
    have hsign := (List.prefix_append_right_inj (splitSign s).1.toList).mpr hdigits
    rwa [splitSign_append] at hsign

end ExponentPart

namespace NumberLiteral

theorem scanFraction_append (s : List Char) :
    (if (scanFraction s).isEmpty then [] else '.' :: scanFraction s) ++
      (if (scanFraction s).isEmpty then s else s.drop ((scanFraction s).length + 1)) = s := by
  split
  · rfl
  · rename_i hne
    unfold scanFraction at hne ⊢
    split
    · simp [takeWhile_append_drop]
    · simp at hne

theorem exponent_prefix (s : List Char) :
    ((ExponentPart.scan? s).map ExponentPart.text).getD [] <+: s := by
  cases h : ExponentPart.scan? s with
  | none => exact List.nil_prefix
  | some e => exact ExponentPart.text_prefix h

theorem scanDecimal_prefix (s : List Char) : (scanDecimal s).text <+: s := by
  have hwhole := takeWhile_append_drop Char.isDigit s
  simp only [scanDecimal, text]
  generalize s.drop (s.takeWhile Char.isDigit).length = rest at hwhole ⊢
  obtain ⟨r, hr⟩ := exponent_prefix
    (if (scanFraction rest).isEmpty then rest else rest.drop ((scanFraction rest).length + 1))
  refine ⟨r, ?_⟩
  rw [List.append_assoc, hr, List.append_assoc, scanFraction_append, hwhole]

theorem scan_prefix (s : List Char) : (scan s).text <+: s := by
  unfold scan
  split
  · dsimp only
    split
    · exact scanDecimal_prefix _
    · simp [text, List.takeWhile_prefix]
  · exact scanDecimal_prefix s

theorem text_scan_ne_nil {c : Char} (hc : c.isDigit = true) (s : List Char) :
    (scan (c :: s)).text ≠ [] := by
  have hdecimal (r : List Char) : (scanDecimal (c :: r)).text ≠ [] := by
    simp [scanDecimal, text, hc]
  unfold scan
  split
  · rename_i hs
    dsimp only
    split
    · obtain ⟨rfl, rfl⟩ := List.cons.inj hs
      exact hdecimal _
    · simp [text]
  · exact hdecimal s

end NumberLiteral

namespace Symbol

theorem mem_all (y : Symbol) : y ∈ all := by cases y <;> decide

theorem chars_prefix {s : List Char} {y : Symbol} (h : scan? s = some y) : y.chars <+: s := by
  have hy := List.find?_some h
  simpa using hy

theorem not_chars_prefix {s : List Char} (h : scan? s = none) (y : Symbol) : ¬ y.chars <+: s := by
  have hy := List.find?_eq_none.mp h y y.mem_all
  simpa using hy

theorem chars_ne_nil (y : Symbol) : y.chars ≠ [] := by cases y <;> decide

end Symbol

theorem isWordChar_of_isWordStart {c : Char} (h : isWordStart c = true) : isWordChar c = true := by
  simp only [isWordStart, isWordChar, Char.isAlphanum, Bool.or_eq_true] at h ⊢
  exact h.imp Or.inl id

namespace Piece

theorem text_scanComment_prefix (s : List Char) : (scanComment s).text <+: '-' :: '-' :: s := by
  unfold scanComment
  split
  · rename_i level hlevel
    obtain ⟨r, rfl⟩ := longBracket_prefix hlevel
    obtain ⟨t, ht, -⟩ := scanLongComment_append r
    refine ⟨t, ?_⟩
    rw [drop_longBracket]
    simp only [text, List.cons_append, List.append_assoc] at ht ⊢
    rw [← ht]
  · simp [text, List.takeWhile_prefix]

theorem text_scanString_prefix {q : Char} (hq : StringLiteral.IsQuote q) (s : List Char) :
    (scanString q s).text <+: q :: s := by
  unfold scanString
  split
  · rename_i body hbody
    exact List.cons_prefix_cons.mpr ⟨rfl, (StringLiteral.body_of_scanBody? hq hbody).2⟩
  · simp [text]

theorem text_scanWord (s : List Char) : (scanWord s).text = s.takeWhile isWordChar := by
  unfold scanWord
  dsimp only
  split <;> rfl

theorem text_scanSymbol_prefix (c : Char) (s : List Char) : (scanSymbol c s).text <+: c :: s := by
  unfold scanSymbol
  split
  · rename_i y hy
    exact Symbol.chars_prefix hy
  · simp [text]

/-- The first character, or the first two, decide what is looked for. -/
theorem scan_cases {motive : Piece → Prop} (c : Char) (s : List Char)
    (blank : isBlank c = true → motive (.blank c))
    (comment : ∀ r, c = '-' → s = '-' :: r → motive (scanComment r))
    (string : StringLiteral.IsQuote c → motive (scanString c s))
    (number : c.isDigit = true → motive (scanNumber (c :: s)))
    (word : isWordStart c = true → motive (scanWord (c :: s)))
    (symbol : isBlank c = false → ¬ StringLiteral.IsQuote c → c.isDigit = false →
      isWordStart c = false → motive (scanSymbol c s)) : motive (scan c s) := by
  unfold scan
  split
  · exact blank ‹_›
  split
  · rename_i h
    obtain ⟨hc, hs⟩ : c = '-' ∧ s.head? = some '-' := by simpa using h
    obtain ⟨r, hr⟩ := List.head?_eq_some_iff.mp hs
    subst hr
    exact comment r hc rfl
  split
  · rename_i hquote
    exact string (by simpa [StringLiteral.IsQuote] using hquote)
  split
  · exact number ‹_›
  split
  · exact word ‹_›
  · rename_i hblank _ hquote hdigit hword
    refine symbol ?_ ?_ ?_ ?_
    · simpa using hblank
    · simpa [StringLiteral.IsQuote] using hquote
    · simpa using hdigit
    · simpa using hword

/-- A piece is written at the front of the text it is found in. -/
theorem text_scan_prefix (c : Char) (s : List Char) : (scan c s).text <+: c :: s := by
  refine scan_cases (motive := fun p => p.text <+: c :: s) c s ?blank ?comment ?string ?number ?word
    ?symbol
  case blank => simp [text]
  case comment =>
    rintro r rfl rfl
    exact text_scanComment_prefix r
  case string => exact fun hq => text_scanString_prefix hq s
  case number => exact fun _ => NumberLiteral.scan_prefix _
  case word =>
    intro _
    rw [text_scanWord]
    exact List.takeWhile_prefix _
  case symbol => exact fun _ _ _ _ => text_scanSymbol_prefix c s

theorem text_scan_ne_nil (c : Char) (s : List Char) : (scan c s).text ≠ [] := by
  refine scan_cases (motive := fun p => p.text ≠ []) c s ?blank ?comment ?string ?number ?word
    ?symbol
  case blank => simp [text]
  case comment =>
    intro r _ _
    unfold scanComment
    split <;> simp [text]
  case string =>
    intro _
    unfold scanString
    split <;> simp [text]
  case number => exact fun hdigit => NumberLiteral.text_scan_ne_nil hdigit s
  case word =>
    intro hword
    rw [text_scanWord, List.takeWhile_cons_of_pos (isWordChar_of_isWordStart hword)]
    exact List.cons_ne_nil _ _
  case symbol =>
    intro _ _ _ _
    unfold scanSymbol
    split
    · exact Symbol.chars_ne_nil _
    · simp [text]

end Piece

theorem pieces_of_append {c : Char} {s r : List Char} (h : (Piece.scan c s).text ++ r = c :: s) :
    pieces (c :: s) = Piece.scan c s :: pieces r := by
  cases htext : (Piece.scan c s).text with
  | nil => exact absurd htext (Piece.text_scan_ne_nil c s)
  | cons d t =>
    obtain ⟨-, rfl⟩ : d = c ∧ t ++ r = s := by simpa [htext] using h
    rw [pieces, piecesAfter, piecesAfter_eq_pieces_drop, htext, List.length_cons,
      Nat.add_sub_cancel, List.drop_left]

/-- What holds of a text once it holds of what comes after the first piece holds of every text. -/
theorem pieces_induction {motive : List Char → Prop} (nil : motive [])
    (cons : ∀ c s r, (Piece.scan c s).text ++ r = c :: s → motive r → motive (c :: s))
    (s : List Char) : motive s := by
  cases s with
  | nil => exact nil
  | cons c s =>
    obtain ⟨r, hr⟩ := Piece.text_scan_prefix c s
    exact cons c s r hr (pieces_induction nil cons r)
termination_by s.length
decreasing_by
  have hpos := List.length_pos_iff.mpr (Piece.text_scan_ne_nil c s)
  have hlength := congrArg List.length hr
  simp only [List.length_append, List.length_cons] at hlength ⊢
  omega

/-- Put end to end, the pieces of a text are the text. -/
theorem flatMap_text_pieces (s : List Char) : (pieces s).flatMap Piece.text = s := by
  induction s using pieces_induction with
  | nil => rfl
  | cons c s r h ih => rw [pieces_of_append h, List.flatMap_cons, ih, h]

end LuaSyntax
