import LuaSyntax.Proofs.Lexeme
import LuaSyntax.Proofs.Lines

/-!
The longest lexeme. A token that is no string is the longest spelling that the text begins with there,
and its kind is what that spelling says.
-/
namespace LuaSyntax

theorem prefix_takeWhile {p : Char → Bool} {s t : List Char} (ht : ∀ c ∈ t, p c = true)
    (h : t <+: s) : t <+: s.takeWhile p := by
  obtain ⟨r, rfl⟩ := h
  rw [List.takeWhile_append_of_pos ht]
  exact List.prefix_append _ _

theorem head?_eq_of_isPrefix {s t : List Char} (hne : t ≠ []) (h : t <+: s) : t.head? = s.head? := by
  obtain ⟨r, rfl⟩ := h
  rw [List.head?_append_of_ne_nil _ hne]

/-- A run of characters that something else comes behind is all of the run in the text. -/
theorem takeWhile_eq_of_isPrefix {p : Char → Bool} {s t r : List Char} (ht : ∀ c ∈ t, p c = true)
    (hr : ∀ c ∈ r.head?, p c = false) (hne : r ≠ []) (h : t ++ r <+: s) :
    s.takeWhile p = t ∧ r <+: s.drop t.length := by
  obtain ⟨v, rfl⟩ := h
  obtain ⟨c, r, rfl⟩ := List.exists_cons_of_ne_nil hne
  have hhead : ∀ d ∈ (c :: r ++ v).head?, p d = false := by simpa using hr
  rw [List.append_assoc]
  exact ⟨takeWhile_append_of_head ht hhead, by simp⟩

namespace ExponentPart

variable {e : ExponentPart} {e? : Option ExponentPart} {s : List Char}

/-- More digits may follow than those of an exponent that the text begins with. -/
theorem scan?_longest (h : e.WellFormed) (hs : e.text <+: s) :
    ∃ digits, scan? s = some { e with digits } ∧ e.digits <+: digits := by
  obtain ⟨r, rfl⟩ := hs
  have hrun : e.digits <+: (e.digits ++ r).takeWhile Char.isDigit :=
    prefix_takeWhile h.digits (List.prefix_append _ _)
  have hne : (e.digits ++ r).takeWhile Char.isDigit ≠ [] := fun hnil =>
    h.digits_ne_nil (List.prefix_nil.mp (hnil ▸ hrun))
  refine ⟨_, ?_, hrun⟩
  simp [text, scan?, splitSign_append_digits h.sign h.digits_ne_nil h.digits, h.letter, hne]

theorem optional_longest (h : ∀ e ∈ e?, e.WellFormed) (hs : (e?.map text).getD [] <+: s) :
    ((e?.map text).getD []).length ≤ (((scan? s).map text).getD []).length := by
  cases e? with
  | none => exact Nat.zero_le _
  | some e =>
    obtain ⟨digits, hscan, hdigits⟩ := scan?_longest (h e rfl) hs
    have hle := hdigits.length_le
    simp [hscan, text, hle]

end ExponentPart

namespace NumberLiteral

variable {whole fraction s : List Char} {exponent : Option ExponentPart}

/-- What a literal has behind its whole part. -/
def tail (fraction : List Char) (exponent : Option ExponentPart) : List Char :=
  (if fraction.isEmpty then [] else '.' :: fraction) ++ (exponent.map ExponentPart.text).getD []

/-- What is found behind the whole part. -/
def scanTail (s : List Char) : List Char :=
  let fraction := scanFraction s
  tail fraction (ExponentPart.scan? (if fraction.isEmpty then s else s.drop (fraction.length + 1)))

theorem text_decimal : (decimal whole fraction exponent).text = whole ++ tail fraction exponent :=
  List.append_assoc ..

theorem text_scanDecimal (s : List Char) : (scanDecimal s).text =
    s.takeWhile Char.isDigit ++ scanTail (s.drop (s.takeWhile Char.isDigit).length) :=
  List.append_assoc ..

theorem head_exponent (h : ∀ e ∈ exponent, e.WellFormed) :
    ∀ c ∈ ((exponent.map ExponentPart.text).getD []).head?, c = 'e' ∨ c = 'E' := by
  cases exponent with
  | none => simp
  | some e => simpa [ExponentPart.text] using (h e rfl).letter

theorem head_tail (h : ∀ e ∈ exponent, e.WellFormed) :
    ∀ c ∈ (tail fraction exponent).head?, c.isDigit = false := by
  cases fraction with
  | nil =>
    intro c hc
    rcases head_exponent h c hc with rfl | rfl <;> decide
  | cons d ds => simp [tail]

theorem scanTail_longest (hfraction : ∀ c ∈ fraction, c.isDigit = true)
    (hexponent : ∀ e ∈ exponent, e.WellFormed) (hs : tail fraction exponent <+: s) :
    (tail fraction exponent).length ≤ (scanTail s).length := by
  have hhead := head_exponent hexponent
  have hlongest (r : List Char) := ExponentPart.optional_longest (s := r) hexponent
  unfold tail at hs ⊢
  generalize (exponent.map ExponentPart.text).getD [] = rest at hhead hlongest hs ⊢
  cases fraction with
  | nil =>
    by_cases hnil : rest = []
    · simp [hnil]
    have hs' : rest <+: s := hs
    have hpoint : scanFraction s = [] := by
      refine scanFraction_of_head fun d hd => ?_
      rcases hhead d (by rwa [head?_eq_of_isPrefix hnil hs']) with rfl | rfl <;> decide
    simpa [scanTail, hpoint, tail] using hlongest s hs'
  | cons d ds =>
    obtain ⟨s, rfl⟩ : ∃ r, s = '.' :: r := by
      obtain ⟨v, rfl⟩ := hs
      exact ⟨_, rfl⟩
    have hs' : d :: ds ++ rest <+: s := (List.cons_prefix_cons.mp hs).2
    have hrun : d :: ds <+: s.takeWhile Char.isDigit :=
      prefix_takeWhile hfraction ((List.prefix_append _ _).trans hs')
    have hne : s.takeWhile Char.isDigit ≠ [] := fun hempty =>
      List.cons_ne_nil d ds (List.prefix_nil.mp (hempty ▸ hrun))
    simp only [scanTail, scanFraction, tail, List.isEmpty_eq_false_iff.mpr hne]
    by_cases hnil : rest = []
    · have hle := hrun.length_le
      simp [hnil] at hle ⊢
      omega
    · have hdigit : ∀ c ∈ rest.head?, c.isDigit = false := by
        intro c hc
        rcases hhead c hc with rfl | rfl <;> decide
      obtain ⟨htake, hrest⟩ := takeWhile_eq_of_isPrefix hfraction hdigit hnil hs'
      have hle := hlongest _ hrest
      simpa [htake] using hle

theorem scanDecimal_longest (h : (decimal whole fraction exponent).WellFormed)
    (hs : (decimal whole fraction exponent).text <+: s) :
    (decimal whole fraction exponent).text.length ≤ (scanDecimal s).text.length := by
  obtain ⟨-, hwhole, hfraction, hexponent⟩ := h
  rw [text_decimal] at hs ⊢
  rw [text_scanDecimal]
  by_cases hnil : tail fraction exponent = []
  · have hrun := prefix_takeWhile hwhole ((List.prefix_append _ _).trans hs)
    have hle := hrun.length_le
    rw [hnil, List.append_nil, List.length_append]
    omega
  · obtain ⟨htake, htail⟩ := takeWhile_eq_of_isPrefix hwhole (head_tail hexponent) hnil hs
    have hle := scanTail_longest hfraction hexponent htail
    simpa [htake] using hle

theorem scan_longest {l : NumberLiteral} {s : List Char} (h : l.WellFormed) (hs : l.text <+: s) :
    l.text.length ≤ (scan s).text.length := by
  by_cases hmark : ∃ r, s = '0' :: 'x' :: r ∧ r.takeWhile isHexDigit ≠ []
  · obtain ⟨r, rfl, hne⟩ := hmark
    have hscan : scan ('0' :: 'x' :: r) = .hexadecimal (r.takeWhile isHexDigit) := by
      simp [scan, hne]
    rw [hscan]
    cases l with
    | hexadecimal ds =>
      have hds : ds <+: r := by simpa [text] using hs
      have hle := (prefix_takeWhile h.2 hds).length_le
      simpa [text] using hle
    | decimal whole fraction exponent =>
      -- a decimal literal ends before the mark
      have hzero : (decimal whole fraction exponent).text <+: ['0'] :=
        (prefix_append_cons (notMem_text_decimal h)).mp hs
      have hle := hzero.length_le
      exact hle.trans (by simp [text])
  · have hscan : scan s = scanDecimal s := by
      unfold scan
      split
      · rename_i r
        have hnil : r.takeWhile isHexDigit = [] := by_contra fun hne => hmark ⟨r, rfl, hne⟩
        simp [hnil]
      · rfl
    rw [hscan]
    cases l with
    | decimal whole fraction exponent => exact scanDecimal_longest h hs
    | hexadecimal ds =>
      obtain ⟨v, rfl⟩ := hs
      refine absurd ⟨ds ++ v, rfl, ?_⟩ hmark
      have hrun := prefix_takeWhile h.2 (List.prefix_append ds v)
      exact fun hnil => h.1 (List.prefix_nil.mp (hnil ▸ hrun))

/-- A text spells at most one numeral. -/
theorem eq_of_text_eq {l m : NumberLiteral} (hl : l.WellFormed) (hm : m.WellFormed)
    (h : l.text = m.text) : l = m := by
  rw [← scan_text hl, h, scan_text hm]

/-- The number of a literal that has neither a fraction nor an exponent. -/
def natural? : NumberLiteral → Option Nat
  | hexadecimal digits => some (denoted 16 digits)
  | decimal whole [] none => some (denoted 10 whole)
  | decimal _ _ _ => none

theorem value_eq_int {l : NumberLiteral} (h : l.WellFormed) {i : Int} :
    l.value = .int i ↔ ∃ n, l.natural? = some n ∧ n < Nat.pow 2 63 ∧ i = n := by
  cases l with
  | hexadecimal digits =>
    have hread := readDigits_eq 16 h.2
    by_cases hlt : denoted 16 digits < Nat.pow 2 63
    · simp [value, natural?, hread, hlt, eq_comm]
    · simp [value, natural?, hread, hlt]
  | decimal whole fraction exponent =>
    cases fraction with
    | cons d ds => simp [value, natural?]
    | nil =>
      cases exponent with
      | some e => simp [value, natural?]
      | none =>
        have hread := readDigits_eq 10 fun c hc => isHexDigit_of_isDigit (h.2.1 c hc)
        by_cases hlt : denoted 10 whole < Nat.pow 2 63
        · simp [value, natural?, hread, hlt, eq_comm]
        · simp [value, natural?, hread, hlt]

end NumberLiteral

namespace Symbol

theorem scan?_longest {s : List Char} {y z : Symbol} (h : scan? s = some z) (hy : y.chars <+: s) :
    y.chars.length ≤ z.chars.length := by
  have hsorted : all.Pairwise fun y z => z.chars.length ≤ y.chars.length := by decide
  obtain ⟨-, before, after, hall, hbefore⟩ := List.find?_eq_some_iff_append.mp h
  have hmem := y.mem_all
  rw [hall] at hmem hsorted
  rcases List.mem_append.mp hmem with hy' | hy'
  · have hskipped := hbefore y hy'
    simp [List.isPrefixOf_iff_prefix.mpr hy] at hskipped
  rcases List.mem_cons.mp hy' with rfl | hafter
  · exact Nat.le_refl _
  · exact (List.pairwise_cons.mp (List.pairwise_append.mp hsorted).2.1).1 y hafter

theorem chars_inj {y z : Symbol} : y.chars = z.chars ↔ y = z := by
  refine ⟨fun h => ?_, congrArg chars⟩
  have hscan := y.scan?_chars
  rw [h, z.scan?_chars] at hscan
  exact (Option.some.inj hscan).symm

end Symbol

theorem Keyword.ofSpelling?_eq_some {w : String} {k : Keyword} :
    ofSpelling? w = some k ↔ k.spelling = w := by
  refine ⟨fun h => by simpa using List.find?_some h, ?_⟩
  rintro rfl
  cases k <;> rfl

namespace Lexeme

/-- The longest text of a language that another text begins with. -/
structure IsLongest (l : Language Char) (s t : List Char) : Prop where
  mem : t ∈ l
  isPrefix : t <+: s
  length_le : ∀ u ∈ l, u <+: s → u.length ≤ t.length

/-- What kind of token a text is, if it is no string. -/
structure Classifies (text : List Char) (kind : TokenKind) : Prop where
  word : text ∈ word ↔ kind = .name ∨ ∃ k, kind = .keyword k
  reserved : String.ofList text ∈ reserved ↔ ∃ k, kind = .keyword k
  keyword (k : Keyword) : kind = .keyword k ↔ k.spelling = String.ofList text
  number : text ∈ number ↔ (∃ i, kind = .number (.int i)) ∨ ∃ x, kind = .number (.float x)
  int (i : Int) : kind = .number (.int i) ↔ ∃ n : Nat, Spells text n ∧ n < Nat.pow 2 63 ∧ i = n
  symbol (y : Symbol) : kind = .symbol y ↔ y.chars = text

section

variable {c : Char} {s t : List Char}

theorem isWordStart_of_isDigit (h : c.isDigit = true) : isWordStart c = false := by
  obtain ⟨-, hnine⟩ := isDigit_iff.mp h
  have hupper : ¬ 'A' ≤ c := fun hupper => absurd (Char.le_trans hupper hnine) (by decide)
  have hlower : ¬ 'a' ≤ c := fun hlower => absurd (Char.le_trans hlower hnine) (by decide)
  have hscore : c ≠ '_' := by
    rintro rfl
    cases h
  simp [isWordStart, ← Bool.not_eq_true, isAlpha_iff, hupper, hlower, hscore]

theorem isDigit_of_isWordStart (h : isWordStart c = true) : c.isDigit = false :=
  Bool.eq_false_iff.mpr fun hdigit => by simp [isWordStart_of_isDigit hdigit] at h

theorem head_word (h : s ∈ word) : ∃ c r, s = c :: r ∧ isWordStart c = true := by
  obtain ⟨c, r, hc, -, rfl⟩ := mem_one_mul.mp h
  exact ⟨c, r, rfl, letter_iff.mp hc⟩

theorem head_number (h : s ∈ number) : ∃ c r, s = c :: r ∧ c.isDigit = true := by
  obtain ⟨l, hl, rfl⟩ := mem_number.mp h
  cases l with
  | hexadecimal ds => exact ⟨'0', _, rfl, rfl⟩
  | decimal whole fraction exponent =>
    obtain ⟨hne, hwhole, -⟩ := hl
    obtain ⟨d, whole, rfl⟩ := List.exists_cons_of_ne_nil hne
    exact ⟨d, _, rfl, hwhole d (by simp)⟩

theorem head_symbol (h : s ∈ symbol) :
    ∃ c r, s = c :: r ∧ c.isDigit = false ∧ isWordStart c = false := by
  obtain ⟨y, rfl⟩ := mem_symbol.mp h
  cases y <;> exact ⟨_, _, rfl, by decide⟩

theorem nil_notMem_any : [] ∉ any := by
  rintro ((h | h) | h)
  · obtain ⟨c, r, hnil, -⟩ := head_word h
    cases hnil
  · obtain ⟨c, r, hnil, -⟩ := head_number h
    cases hnil
  · obtain ⟨c, r, hnil, -⟩ := head_symbol h
    cases hnil

theorem notMem_word (hc : isWordStart c = false) : c :: s ∉ word := by
  intro h
  obtain ⟨d, r, heq, hd⟩ := head_word h
  obtain ⟨rfl, rfl⟩ := List.cons.inj heq
  exact Bool.eq_false_iff.mp hc hd

theorem notMem_number (hc : c.isDigit = false) : c :: s ∉ number := by
  intro h
  obtain ⟨d, r, heq, hd⟩ := head_number h
  obtain ⟨rfl, rfl⟩ := List.cons.inj heq
  exact Bool.eq_false_iff.mp hc hd

theorem notMem_symbol (hc : c.isDigit = true ∨ isWordStart c = true) : c :: s ∉ symbol := by
  intro h
  obtain ⟨d, r, heq, hdigit, hword⟩ := head_symbol h
  obtain ⟨rfl, rfl⟩ := List.cons.inj heq
  simp [hdigit, hword] at hc

theorem word_longest (hc : isWordStart c = true) (s : List Char) :
    IsLongest word (c :: s) ((c :: s).takeWhile isWordChar) where
  mem := by
    rw [List.takeWhile_cons_of_pos (isWordChar_of_isWordStart hc)]
    exact cons_mem_word.mpr ⟨hc, fun d hd => List.all_eq_true.mp List.all_takeWhile d hd⟩
  isPrefix := List.takeWhile_prefix _
  length_le u hu hprefix := by
    obtain ⟨d, r, rfl, -⟩ := head_word hu
    obtain ⟨hd, hr⟩ := cons_mem_word.mp hu
    have hchars : ∀ e ∈ d :: r, isWordChar e = true :=
      List.forall_mem_cons.mpr ⟨isWordChar_of_isWordStart hd, hr⟩
    exact (prefix_takeWhile hchars hprefix).length_le

theorem number_longest (hc : c.isDigit = true) (s : List Char) :
    IsLongest number (c :: s) (NumberLiteral.scan (c :: s)).text where
  mem := mem_number.mpr ⟨_, NumberLiteral.wellFormed_scan hc s, rfl⟩
  isPrefix := NumberLiteral.scan_prefix _
  length_le u hu hprefix := by
    obtain ⟨l, hl, rfl⟩ := mem_number.mp hu
    exact NumberLiteral.scan_longest hl hprefix

theorem symbol_longest {y : Symbol} (h : Symbol.scan? s = some y) :
    IsLongest symbol s y.chars where
  mem := mem_symbol.mpr ⟨y, rfl⟩
  isPrefix := Symbol.chars_prefix h
  length_le u hu hprefix := by
    obtain ⟨z, rfl⟩ := mem_symbol.mp hu
    exact Symbol.scan?_longest h hprefix

/-- Where the other spellings begin otherwise, the longest of one sort is the longest of all. -/
theorem IsLongest.among {l : Language Char} (h : IsLongest l (c :: s) t) (hl : ∀ u ∈ l, u ∈ any)
    (hother : ∀ r, c :: r ∈ any → c :: r ∈ l) : IsLongest any (c :: s) t where
  mem := hl t h.mem
  isPrefix := h.isPrefix
  length_le u hu hprefix := by
    cases u with
    | nil => exact absurd hu nil_notMem_any
    | cons d r =>
      obtain ⟨rfl, -⟩ := List.cons_prefix_cons.mp hprefix
      exact h.length_le _ (hother r hu) hprefix

theorem word_longest_any (hc : isWordStart c = true) (s : List Char) :
    IsLongest any (c :: s) ((c :: s).takeWhile isWordChar) := by
  refine (word_longest hc s).among (fun u hu => .inl (.inl hu)) ?_
  rintro r ((h | h) | h)
  · exact h
  · exact absurd h (notMem_number (isDigit_of_isWordStart hc))
  · exact absurd h (notMem_symbol (.inr hc))

theorem number_longest_any (hc : c.isDigit = true) (s : List Char) :
    IsLongest any (c :: s) (NumberLiteral.scan (c :: s)).text := by
  refine (number_longest hc s).among (fun u hu => .inl (.inr hu)) ?_
  rintro r ((h | h) | h)
  · exact absurd h (notMem_word (isWordStart_of_isDigit hc))
  · exact h
  · exact absurd h (notMem_symbol (.inl hc))

theorem symbol_longest_any {y : Symbol} (hdigit : c.isDigit = false) (hword : isWordStart c = false)
    (h : Symbol.scan? (c :: s) = some y) : IsLongest any (c :: s) y.chars := by
  refine (symbol_longest h).among (fun u hu => .inr hu) ?_
  rintro r ((h | h) | h)
  · exact absurd h (notMem_word hword)
  · exact absurd h (notMem_number hdigit)
  · exact h

theorem notMem_number_of_word (h : s ∈ word) : s ∉ number := by
  obtain ⟨c, r, rfl, hc⟩ := head_word h
  exact notMem_number (isDigit_of_isWordStart hc)

theorem notMem_symbol_of_word (h : s ∈ word) : s ∉ symbol := by
  obtain ⟨c, r, rfl, hc⟩ := head_word h
  exact notMem_symbol (.inr hc)

theorem notMem_symbol_of_number (h : s ∈ number) : s ∉ symbol := by
  obtain ⟨c, r, rfl, hc⟩ := head_number h
  exact notMem_symbol (.inl hc)

theorem mem_word_of_spelling {k : Keyword} (h : k.spelling = String.ofList s) : s ∈ word := by
  obtain rfl : s = k.spelling.toList := by rw [h, String.toList_ofList]
  cases k <;> exact cons_mem_word.mpr ⟨by decide, List.all_eq_true.mp (by decide)⟩

theorem mem_number_of_spells {n : Nat} (h : Spells s n) : s ∈ number := by
  cases h with
  | decimal hds =>
    obtain ⟨hne, hdigits⟩ := mem_digits.mp hds
    exact mem_number.mpr ⟨.decimal s [] none, ⟨hne, hdigits, by simp, by simp⟩, by
      simp [NumberLiteral.text]⟩
  | hexadecimal hds => exact mem_number.mpr ⟨.hexadecimal _, mem_hexDigits.mp hds, rfl⟩

theorem not_spelling (h : s ∉ word) (k : Keyword) : k.spelling ≠ String.ofList s := fun hk =>
  h (mem_word_of_spelling hk)

theorem not_spells (h : s ∉ number) (n : Nat) : ¬ Spells s n := fun hn => h (mem_number_of_spells hn)

theorem not_chars (h : s ∉ symbol) (y : Symbol) : y.chars ≠ s := fun hy => h (mem_symbol.mpr ⟨y, hy⟩)

theorem spells_text {l : NumberLiteral} (hl : l.WellFormed) {n : Nat} :
    Spells l.text n ↔ l.natural? = some n := by
  constructor
  · intro h
    generalize htext : l.text = text at h
    cases h with
    | decimal hds =>
      obtain ⟨hne, hdigits⟩ := mem_digits.mp hds
      have hwf : (NumberLiteral.decimal text [] none).WellFormed := ⟨hne, hdigits, by simp, by simp⟩
      obtain rfl := NumberLiteral.eq_of_text_eq hl hwf (by simpa [NumberLiteral.text] using htext)
      rfl
    | @hexadecimal ds hds =>
      have hwf : (NumberLiteral.hexadecimal ds).WellFormed := mem_hexDigits.mp hds
      obtain rfl := NumberLiteral.eq_of_text_eq hl hwf htext
      rfl
  · intro h
    cases l with
    | hexadecimal ds =>
      obtain rfl := Option.some.inj h
      exact .hexadecimal (mem_hexDigits.mpr hl)
    | decimal whole fraction exponent =>
      cases fraction with
      | cons d ds => cases h
      | nil =>
        cases exponent with
        | some e => cases h
        | none =>
          obtain rfl := Option.some.inj h
          obtain ⟨hne, hwhole, -⟩ := hl
          have htext : (NumberLiteral.decimal whole [] none).text = whole := by
            simp [NumberLiteral.text]
          rw [htext]
          exact .decimal (mem_digits.mpr ⟨hne, hwhole⟩)

theorem classifies_keyword {k : Keyword} (h : k.spelling = String.ofList t) :
    Classifies t (.keyword k) := by
  have hword := mem_word_of_spelling h
  have hnumber := notMem_number_of_word hword
  have hkeyword : ∀ l : Keyword, k = l ↔ l.spelling = String.ofList t := by
    intro l
    rw [← Keyword.ofSpelling?_eq_some, Keyword.ofSpelling?_eq_some.mpr h, Option.some.injEq]
  constructor
  · simp [hword]
  · simp [mem_reserved, ← hkeyword]
  · simp [hkeyword]
  · simp [hnumber]
  · simp [not_spells hnumber]
  · simp [not_chars (notMem_symbol_of_word hword)]

theorem classifies_name (h : ∀ k : Keyword, k.spelling ≠ String.ofList t) (hword : t ∈ word) :
    Classifies t .name := by
  have hnumber := notMem_number_of_word hword
  constructor
  · simp [hword]
  · simp [mem_reserved, h]
  · simp [h]
  · simp [hnumber]
  · simp [not_spells hnumber]
  · simp [not_chars (notMem_symbol_of_word hword)]

theorem classifies_symbol (y : Symbol) : Classifies y.chars (.symbol y) := by
  have hmem : y.chars ∈ symbol := mem_symbol.mpr ⟨y, rfl⟩
  have hword : y.chars ∉ word := fun h => notMem_symbol_of_word h hmem
  have hnumber : y.chars ∉ number := fun h => notMem_symbol_of_number h hmem
  constructor
  · simp [hword]
  · simp [mem_reserved, not_spelling hword]
  · simp [not_spelling hword]
  · simp [hnumber]
  · simp [not_spells hnumber]
  · simp [Symbol.chars_inj, eq_comm]

theorem classifies_number {l : NumberLiteral} (hl : l.WellFormed) :
    Classifies l.text (.number l.value) := by
  have hnumber : l.text ∈ number := mem_number.mpr ⟨l, hl, rfl⟩
  have hword : l.text ∉ word := fun h => notMem_number_of_word h hnumber
  constructor
  · simp [hword]
  · simp [mem_reserved, not_spelling hword]
  · simp [not_spelling hword]
  · cases l.value <;> simp [hnumber]
  · simp only [TokenKind.number.injEq, NumberLiteral.value_eq_int hl, spells_text hl, implies_true]
  · simp [not_chars (notMem_symbol_of_number hnumber)]

/-- A piece that is a token but no string is the longest spelling that the text begins with. -/
theorem scan_longest {text : List Char} {kind : TokenKind}
    (h : Piece.scan c s = .lexeme kind text) (hkind : kind ≠ .string) :
    IsLongest any (c :: s) text ∧ Classifies text kind := by
  revert h hkind
  refine Piece.scan_cases (motive := fun p => p = .lexeme kind text → kind ≠ .string →
    IsLongest any (c :: s) text ∧ Classifies text kind) c s
    ?blank ?comment ?string ?number ?word ?symbol
  case blank => exact fun _ h => nomatch h
  case comment => exact fun r _ _ h => absurd h (Piece.scanComment_ne_lexeme r)
  case string =>
    intro _ h hkind
    obtain ⟨-, -, hstring, -⟩ := Piece.scanString_eq_lexeme h
    exact absurd hstring hkind
  case number =>
    intro hdigit h _
    obtain ⟨rfl, rfl⟩ := Piece.lexeme.inj h
    exact ⟨number_longest_any hdigit s, classifies_number (NumberLiteral.wellFormed_scan hdigit s)⟩
  case word =>
    intro hword h _
    have hlongest := word_longest_any hword s
    have hmem := (word_longest hword s).mem
    unfold Piece.scanWord at h
    dsimp only at h
    split at h
    · rename_i k hk
      obtain ⟨rfl, rfl⟩ := Piece.lexeme.inj h
      exact ⟨hlongest, classifies_keyword (Keyword.ofSpelling?_eq_some.mp hk)⟩
    · rename_i hnone
      obtain ⟨rfl, rfl⟩ := Piece.lexeme.inj h
      refine ⟨hlongest, classifies_name (fun k hk => ?_) hmem⟩
      rw [Keyword.ofSpelling?_eq_some.mpr hk] at hnone
      cases hnone
  case symbol =>
    intro _ _ hdigit hword h _
    unfold Piece.scanSymbol at h
    split at h
    · rename_i y hy
      obtain ⟨rfl, rfl⟩ := Piece.lexeme.inj h
      exact ⟨symbol_longest_any hdigit hword hy, classifies_symbol y⟩
    · cases h

end

end Lexeme

/-- Each token that is no string is the longest spelling that the text begins with at its place, and
its kind is what that spelling says. -/
theorem next_longest {x y : Lexer} {t : Token} {source : String} (hx : x.ReadsFrom source)
    (h : x.next = (some t, y)) (hkind : t.kind ≠ .string) :
    ∃ before after : String, source = before ++ t.text ++ after ∧
      y.cursor.offset = (before ++ t.text).utf8ByteSize ∧
      Lexeme.IsLongest Lexeme.any (t.text ++ after).toList t.text.toList ∧
      Lexeme.Classifies t.text.toList t.kind := by
  obtain ⟨before, hstands⟩ := hx.stands
  obtain ⟨skipped, c, r, hsource, hscan, -, hthere⟩ := hstands.token h
  have hahead : c :: r = t.text.toList ++ y.cursor.ahead := by
    have htext := hthere.text_eq
    rw [hsource, List.append_assoc _ t.text.toList] at htext
    exact List.append_cancel_left htext
  obtain ⟨hstrings, hoffset⟩ := hthere.eq_append
  refine ⟨.ofList (before ++ skipped), .ofList y.cursor.ahead, hstrings, hoffset, ?_⟩
  rw [String.toList_append, String.toList_ofList, ← hahead]
  exact Lexeme.scan_longest hscan hkind

/-- A letter ends a hexadecimal number if it is no digit. -/
theorem next_longest_hexadecimal : ∃ y, (Lexer.start "0x5rad" .empty).next =
      (some ⟨.number (.int 5), "0x5", 1⟩, y) ∧
    ∃ before after : String, "0x5rad" = before ++ "0x5" ++ after ∧
      y.cursor.offset = (before ++ "0x5").utf8ByteSize ∧
      Lexeme.IsLongest Lexeme.any ("0x5" ++ after).toList "0x5".toList ∧
      Lexeme.Classifies "0x5".toList (.number (.int 5)) := by
  have hnext : (Lexer.start "0x5rad" .empty).next =
      (some ⟨.number (.int 5), "0x5", 1⟩, (Lexer.start "0x5rad" .empty).next.2) :=
    Prod.ext (by decide +kernel) rfl
  exact ⟨_, hnext, next_longest ⟨.empty, 0, rfl⟩ hnext (by decide)⟩

end LuaSyntax
