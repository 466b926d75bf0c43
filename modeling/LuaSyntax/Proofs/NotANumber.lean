import LuaSyntax.Proofs.Hexadecimal
import LuaSyntax.Proofs.Lexeme
import LuaSyntax.Proofs.Provenance
import LuaSyntax.Proofs.Respacing
import LuaSyntax.Tree.Same

/-!
Doubles that are no numbers. Zero times infinity is one, so is the difference of two infinities, and
a decimal that cannot be read stands for one. None of these is met in a source, whatever reads its
decimals, as long as that gives a number for each; so tokens and trees of a source equal themselves.
-/
namespace LuaSyntax

namespace Binary64

/-- Less than zero. No zero is, of either sign, and NaN is not. -/
def isNegative : Binary64 → Bool
  | nan => false
  | signed negative x => negative && x.code ≠ 0

/-- The product. Zero times infinity has none. -/
def mul : Binary64 → Binary64 → Binary64
  | signed s x, signed t y =>
    if x = .infinity ∨ y = .infinity then
      if x = .zero ∨ y = .zero then nan else signed (s != t) .infinity
    else signed (s != t) (x.mul y)
  | _, _ => nan

/-- The sum. Infinities of opposite signs have none, and finite numbers that cancel give zero. -/
def add : Binary64 → Binary64 → Binary64
  | signed s x, signed t y =>
    if x = .infinity then
      if y = .infinity ∧ s ≠ t then nan else signed s .infinity
    else if y = .infinity then signed t .infinity
    else if s = t then signed s (x.add y)
    else if x.units < y.units then signed t (.ofUnits (y.units - x.units) 1)
    else if y.units < x.units then signed s (.ofUnits (x.units - y.units) 1)
    else signed false .zero
  | _, _ => nan

/-- Hexadecimal digits as a double, by products and sums of doubles. -/
def foldHexadecimal (digits : List Char) : Binary64 :=
  digits.foldl (fun x c => (x.mul (.ofInt 16)).add (.ofInt (digitValue c))) (.ofInt 0)

/-- The double nearest to a decimal. No other text is read. -/
def ofDecimal? (s : List Char) : Option Binary64 :=
  match NumberLiteral.scanDecimal s with
  | .hexadecimal _ => none
  | .decimal whole fraction exponent =>
    if whole ≠ [] ∧ (NumberLiteral.decimal whole fraction exponent).text = s then
      some (.ofMagnitude (.ofScientific (readDigits 10 (whole ++ fraction))
        ((exponent.map ExponentPart.value).getD 0 - fraction.length)))
    else none

structure NonNegative (x : Binary64) : Prop where
  not_nan : x.isNaN = false
  not_negative : x.isNegative = false

end Binary64

/-- Every decimal is read, and as a number that is not negative. -/
def ReadsDecimals (read : List Char → Option Binary64) : Prop :=
  ∀ s ∈ Lexeme.decimal, ∃ x, read s = some x ∧ x.NonNegative

def Numeral.NonNegative : Numeral → Prop
  | int v => 0 ≤ v
  | float x => x.NonNegative

/-- The value of a literal where doubles are read by `read` from the text of a decimal. If it is not
read there, the value is NaN. -/
def NumberLiteral.valueBy (read : List Char → Option Binary64) : NumberLiteral → Numeral
  | hexadecimal digits =>
    let n := readDigits 16 digits
    if n < Nat.pow 2 63 then .int n else .float (.foldHexadecimal digits)
  | decimal whole fraction exponent =>
    let n := readDigits 10 (whole ++ fraction)
    if n < Nat.pow 2 63 && fraction.isEmpty && exponent.isNone then .int n
    else .float ((read (decimal whole fraction exponent).text).getD .nan)

/-- The token with its value computed anew from its text. -/
def Token.valuedBy (read : List Char → Option Binary64) (t : Token) : Token :=
  match t.kind with
  | .number _ => { t with kind := .number ((NumberLiteral.scan t.text.toList).valueBy read) }
  | _ => t

def tokenizeBy (read : List Char → Option Binary64) (source : String) : List Token :=
  (tokenize source).map (Token.valuedBy read)

/-- A node that is not NaN itself. -/
def Part.NotNaN : Part → Prop
  | expr _ (.number x) => x.isNaN = false
  | _ => True

/-- What tokens and the program made of them, if one is, hold as numbers are numbers, so that they
equal themselves, and their copies with it. -/
structure HoldsNumbers (ts : List Token) (result : Except SyntaxError Program) : Prop where
  tokens : ∀ t ∈ ts, ∀ n, t.kind = .number n → n.NonNegative
  tokens_same : Token.sameList ts ts = true
  tree : ∀ p, result = .ok p → (Part.program p).Everywhere Part.NotNaN
  tree_same : ∀ p, result = .ok p → Program.same p p = true

namespace Binary64

theorem nonNegative_ofMagnitude (x : Magnitude) : (ofMagnitude x).NonNegative := ⟨rfl, rfl⟩

theorem isNaN_abs (x : Binary64) : x.abs.isNaN = x.isNaN := by cases x <;> rfl

theorem same_self {x : Binary64} (h : x.isNaN = false) : x.same x = true := by
  cases x with
  | nan => cases h
  | signed s x => simp [same]

theorem ofInt_ofNat (n : Nat) : ofInt n = .ofMagnitude (.ofNat n) := by simp [ofInt, ofMagnitude]

theorem isNaN_ofInt (v : Int) : (ofInt v).isNaN = false := rfl

theorem ofNat_ne_infinity {n : Nat} (hn : n < 2 ^ 53) : Magnitude.ofNat n ≠ .infinity := by
  intro h
  have hunits := Magnitude.units_ofNat hn
  have hlt : n * Magnitude.unitsPerOne < Magnitude.infinity.units := by
    calc n * Magnitude.unitsPerOne < 2 ^ 53 * Magnitude.unitsPerOne :=
          Nat.mul_lt_mul_of_pos_right hn Magnitude.unitsPerOne_pos
      _ ≤ Magnitude.infinity.units := by decide +kernel
  rw [h] at hunits
  omega

theorem mul_sixteen (x : Magnitude) :
    (ofMagnitude x).mul (.ofInt 16) = .ofMagnitude (x.mul (.ofNat 16)) := by
  have hsixteen : Magnitude.ofNat 16 ≠ .infinity := ofNat_ne_infinity (by decide)
  by_cases hx : x = .infinity
  · subst hx
    decide +kernel
  · have hfinite : ¬ (x = .infinity ∨ Magnitude.ofNat 16 = .infinity) := by simp [hx, hsixteen]
    change Binary64.mul (.signed false x) (.signed false (.ofNat 16)) = _
    rw [mul, if_neg hfinite]
    rfl

theorem add_digit (x : Magnitude) {d : Nat} (hd : d < 16) :
    (ofMagnitude x).add (.ofInt d) = .ofMagnitude (x.add (.ofNat d)) := by
  have hdigit : Magnitude.ofNat d ≠ .infinity := ofNat_ne_infinity (by omega)
  rw [ofInt_ofNat]
  by_cases hx : x = .infinity
  · subst hx
    rw [Magnitude.add_digit_large (by decide) hd]
    simp [ofMagnitude, add]
  · simp [ofMagnitude, add, hx, hdigit]

/-- An infinity on the way stays one: sixteen is not zero, and digits are finite. -/
theorem foldHexadecimal_eq {ds : List Char} (h : ∀ c ∈ ds, isHexDigit c = true) :
    foldHexadecimal ds = .ofMagnitude (NumberLiteral.foldHexadecimal ds) := by
  induction ds using List.reverseRecOn with
  | nil =>
    change ofInt ((0 : Nat) : Int) = _
    rw [ofInt_ofNat, Magnitude.ofNat_zero]
    rfl
  | append_singleton ds c ih =>
    have hds := ih fun d hd => h d (by simp [hd])
    have hc := h c (by simp)
    have hstep : foldHexadecimal (ds ++ [c]) =
        ((foldHexadecimal ds).mul (.ofInt 16)).add (.ofInt (digitValue c)) := by
      simp [foldHexadecimal]
    rw [hstep, hds, mul_sixteen, digitValue_eq hc, add_digit _ (digitPlace_lt hc),
      NumberLiteral.foldHexadecimal_concat hc]

end Binary64

namespace NumberLiteral

variable {read : List Char → Option Binary64} {l : NumberLiteral}

theorem ofDecimal?_text {whole fraction : List Char} {exponent : Option ExponentPart}
    (h : (decimal whole fraction exponent).WellFormed) :
    Binary64.ofDecimal? (decimal whole fraction exponent).text =
      some (.ofMagnitude (.ofScientific (readDigits 10 (whole ++ fraction))
        ((exponent.map ExponentPart.value).getD 0 - fraction.length))) := by
  simp only [Binary64.ofDecimal?, scanDecimal_text h]
  rw [if_pos ⟨h.1, trivial⟩]

theorem valueBy_ofDecimal? (h : l.WellFormed) : l.valueBy Binary64.ofDecimal? = l.value := by
  cases l with
  | hexadecimal ds => rw [valueBy, value, Binary64.foldHexadecimal_eq h.2]
  | decimal whole fraction exponent => rw [valueBy, value, ofDecimal?_text h, Option.getD_some]

theorem nonNegative_valueBy (hread : ReadsDecimals read) (h : l.WellFormed) :
    (l.valueBy read).NonNegative := by
  cases l with
  | hexadecimal ds =>
    rw [valueBy, Binary64.foldHexadecimal_eq h.2]
    split
    · exact Int.natCast_nonneg _
    · exact Binary64.nonNegative_ofMagnitude _
  | decimal whole fraction exponent =>
    obtain ⟨x, hx, hnonneg⟩ := hread _ (Lexeme.mem_decimal.mpr ⟨_, _, _, h, rfl⟩)
    rw [valueBy, hx]
    split
    · exact Int.natCast_nonneg _
    · exact hnonneg

end NumberLiteral

theorem readsDecimals_ofDecimal? : ReadsDecimals Binary64.ofDecimal? := by
  intro s hs
  obtain ⟨whole, fraction, exponent, hwf, rfl⟩ := Lexeme.mem_decimal.mp hs
  exact ⟨_, NumberLiteral.ofDecimal?_text hwf, Binary64.nonNegative_ofMagnitude _⟩

/-- A number is scanned from its own text only. -/
theorem Piece.exists_literal {c : Char} {s text : List Char} {n : Numeral}
    (h : Piece.scan c s = .lexeme (.number n) text) :
    ∃ l : NumberLiteral, l.WellFormed ∧ l.text = text ∧ l.value = n := by
  revert h
  refine Piece.scan_cases (motive := fun p => p = .lexeme (.number n) text → _) c s
    ?blank ?comment ?string ?number ?word ?symbol
  case blank => exact fun _ => nofun
  case comment => exact fun r _ _ h => absurd h (Piece.scanComment_ne_lexeme r)
  case string =>
    intro _ h
    obtain ⟨-, -, hstring, -⟩ := Piece.scanString_eq_lexeme h
    cases hstring
  case number =>
    intro hdigit h
    obtain ⟨hvalue, htext⟩ := Piece.lexeme.inj h
    exact ⟨_, NumberLiteral.wellFormed_scan hdigit s, htext, TokenKind.number.inj hvalue⟩
  case word =>
    intro _ h
    unfold Piece.scanWord at h
    dsimp only at h
    split at h <;> cases h
  case symbol =>
    intro _ _ _ _ h
    unfold Piece.scanSymbol at h
    split at h <;> cases h

theorem exists_literal_of_mem_tokenize {source : String} {t : Token} {n : Numeral}
    (h : t ∈ tokenize source) (hkind : t.kind = .number n) :
    ∃ l : NumberLiteral, l.WellFormed ∧ t.text.toList = l.text ∧ n = l.value := by
  obtain ⟨c, s, hscan⟩ := isLexeme_of_mem_tokenize h
  rw [hkind] at hscan
  obtain ⟨l, hwf, htext, hvalue⟩ := Piece.exists_literal hscan
  exact ⟨l, hwf, htext.symm, hvalue.symm⟩

section

variable {read : List Char → Option Binary64} {source : String}

theorem tokenizeBy_ofDecimal? (source : String) :
    tokenizeBy Binary64.ofDecimal? source = tokenize source := by
  have hsame : ∀ t ∈ tokenize source, t.valuedBy Binary64.ofDecimal? = t := by
    intro t ht
    unfold Token.valuedBy
    split
    · rename_i n hkind
      obtain ⟨l, hwf, htext, rfl⟩ := exists_literal_of_mem_tokenize ht hkind
      rw [htext, NumberLiteral.scan_text hwf, NumberLiteral.valueBy_ofDecimal? hwf, ← hkind]
    · rfl
  rw [tokenizeBy, List.map_congr_left hsame, List.map_id']

theorem nonNegative_of_mem_tokenizeBy (hread : ReadsDecimals read) {t : Token} {n : Numeral}
    (h : t ∈ tokenizeBy read source) (hkind : t.kind = .number n) : n.NonNegative := by
  obtain ⟨u, hu, rfl⟩ := List.mem_map.mp h
  unfold Token.valuedBy at hkind
  split at hkind
  · rename_i hnumber
    obtain ⟨l, hwf, htext, -⟩ := exists_literal_of_mem_tokenize hu hnumber
    rw [htext, NumberLiteral.scan_text hwf] at hkind
    obtain rfl := TokenKind.number.inj hkind
    exact NumberLiteral.nonNegative_valueBy hread hwf
  · rename_i hother
    exact absurd hkind (hother n)

end

theorem Numeral.NonNegative.same_self {n : Numeral} (h : n.NonNegative) : n.same n = true := by
  cases n with
  | int v => simp [same]
  | float x => exact Binary64.same_self h.not_nan

theorem Numeral.NonNegative.not_nan {n : Numeral} (h : n.NonNegative) :
    n.toBinary64.isNaN = false := by
  cases n with
  | int v => exact Binary64.isNaN_ofInt v
  | float x => exact Binary64.NonNegative.not_nan h

theorem Token.same_self {t : Token} (h : ∀ n, t.kind = .number n → n.NonNegative) :
    t.same t = true := by
  have hkind : t.kind.same t.kind = true := by
    cases hk : t.kind with
    | number n => exact (h n hk).same_self
    | _ => simp [TokenKind.same]
  simp [same, hkind]

theorem Token.sameList_self {ts : List Token} (h : ∀ t ∈ ts, t.same t = true) :
    sameList ts ts = true := by
  induction ts with
  | nil => rfl
  | cons t ts ih =>
    obtain ⟨ht, hts⟩ := List.forall_mem_cons.mp h
    simp [sameList, ht, ih hts]

theorem Part.notNaN_of_saidBy {ts : List Token}
    (h : ∀ t ∈ ts, ∀ n, t.kind = .number n → n.NonNegative) {x : Part} (hx : x.SaidBy ts) :
    x.NotNaN := by
  cases x with
  | expr role e =>
    cases e with
    | number x =>
      change x.isNaN = false
      rw [← x.isNaN_abs]
      rcases hx with hone | ⟨t, ht, n, hkind, habs⟩
      · rw [hone]
        rfl
      · rw [habs, Binary64.isNaN_abs]
        exact (h t ht n hkind).not_nan
    | _ => trivial
  | _ => trivial

mutual

theorem Expr.same_self {role : Role} :
    (e : Expr) → (Part.expr role e).Everywhere Part.NotNaN → e.same e = true
  | .nil, _ | .boolean _, _ | .string _, _ | .name _, _ | .var _, _ => by simp [Expr.same]
  | .number _, h => by simp [Expr.same, Binary64.same_self h.self]
  | .not a, h | .neg a, h => by
    have ha := a.same_self (h.child (.head _))
    simp [Expr.same, ha]
  | .binary a _ b, h => by
    have ha := a.same_self (h.child (.head _))
    have hb := b.same_self (h.child (.tail _ (.head _)))
    simp [Expr.same, ha, hb]
  | .table es, h => by
    have hes := entries_same_self es fun _ => h.child
    simp [Expr.same, hes]
  | .index a k, h => by
    have ha := a.same_self (h.child (.head _))
    have hk := k.same_self (h.child (.tail _ (.head _)))
    simp [Expr.same, ha, hk]
  | .call f as, h => by
    have hf := f.same_self (h.child (.head _))
    have has := exprs_same_self as fun _ hy => h.child (.tail _ hy)
    simp [Expr.same, hf, has]
  | .function _ b, h => by
    have hb := stmts_same_self b fun _ hy => h.child (List.mem_append_right _ hy)
    simp [Expr.same, hb]

theorem exprs_same_self {role : Role} : (es : List Expr) →
    (∀ y ∈ es.map (Part.expr role), y.Everywhere Part.NotNaN) → sameExprs es es = true
  | [], _ => by simp [sameExprs]
  | e :: es, h => by
    obtain ⟨he, hes⟩ := List.forall_mem_cons.mp h
    simp [sameExprs, e.same_self he, exprs_same_self es hes]

theorem Entry.same_self :
    (e : Entry) → (Part.entry e).Everywhere Part.NotNaN → e.same e = true
  | .entry k v, h => by
    have hk := k.same_self (h.child (.head _))
    have hv := v.same_self (h.child (.tail _ (.head _)))
    simp [Entry.same, hk, hv]

theorem entries_same_self : (es : List Entry) →
    (∀ y ∈ es.map Part.entry, y.Everywhere Part.NotNaN) → sameEntries es es = true
  | [], _ => by simp [sameEntries]
  | e :: es, h => by
    obtain ⟨he, hes⟩ := List.forall_mem_cons.mp h
    simp [sameEntries, e.same_self he, entries_same_self es hes]

theorem Assignment.same_self : (a : Assignment) →
    (Part.stmt (.assign a)).Everywhere Part.NotNaN → a.same a = true
  | .assignment _ ts vs, h => by
    have hts := exprs_same_self ts fun _ hy => h.child (List.mem_append_left _ hy)
    have hvs := exprs_same_self vs fun _ hy => h.child (List.mem_append_right _ hy)
    simp [Assignment.same, hts, hvs]

theorem Stmt.same_self : (s : Stmt) → (Part.stmt s).Everywhere Part.NotNaN → s.same s = true
  | .assign a, h => by
    have ha := a.same_self h
    simp [Stmt.same, ha]
  | .call f as, h => by
    have hf := f.same_self (h.child (.head _))
    have has := exprs_same_self as fun _ hy => h.child (.tail _ hy)
    simp [Stmt.same, hf, has]
  | .block b, h => by
    have hb := stmts_same_self b fun _ => h.child
    simp [Stmt.same, hb]
  | .while c b, h => by
    have hc := c.same_self (h.child (.head _))
    have hb := stmts_same_self b fun _ hy => h.child (.tail _ hy)
    simp [Stmt.same, hc, hb]
  | .repeat b c, h => by
    have hb := stmts_same_self b fun _ hy => h.child (List.mem_append_left _ hy)
    have hc := c.same_self (h.child (List.mem_append_right _ (.head _)))
    simp [Stmt.same, hb, hc]
  | .if c b e, h => by
    have hc := c.same_self (h.child (.head _))
    have hb := stmts_same_self b fun _ hy => h.child (.tail _ (List.mem_append_left _ hy))
    have he := stmts_same_self e fun _ hy => h.child (.tail _ (List.mem_append_right _ hy))
    simp [Stmt.same, hc, hb, he]
  | .numericFor s l t b, h => by
    have hs := s.same_self (h.child (.head _))
    have hl := l.same_self (h.child (.tail _ (.head _)))
    have ht := t.same_self (h.child (.tail _ (.tail _ (.head _))))
    have hb := stmts_same_self b fun _ hy => h.child (.tail _ (.tail _ (.tail _ hy)))
    simp [Stmt.same, hs, hl, ht, hb]
  | .genericFor _ vs b, h => by
    have hvs := exprs_same_self vs fun _ hy =>
      h.child (List.mem_append_left _ (List.mem_append_right _ hy))
    have hb := stmts_same_self b fun _ hy => h.child (List.mem_append_right _ hy)
    simp [Stmt.same, hvs, hb]
  | .definition _ _ _ b, h => by
    -- the statement, the function in it, and the body of that
    have hfunction := (h.child (.head _)).child (.tail _ (.head _))
    have hb := stmts_same_self b fun _ hy => hfunction.child (List.mem_append_right _ hy)
    simp [Stmt.same, hb]
  | .return vs, h => by
    have hvs := exprs_same_self vs fun _ => h.child
    simp [Stmt.same, hvs]
  | .break, _ => by simp [Stmt.same]

theorem stmts_same_self : (ss : List Stmt) →
    (∀ y ∈ ss.map Part.stmt, y.Everywhere Part.NotNaN) → sameStmts ss ss = true
  | [], _ => by simp [sameStmts]
  | s :: ss, h => by
    obtain ⟨hs, hss⟩ := List.forall_mem_cons.mp h
    simp [sameStmts, s.same_self hs, stmts_same_self ss hss]

end

/-- Numbers among the tokens are all that a tree can get its numbers from. -/
theorem holdsNumbers_of_tokens {ts : List Token} {result : Except SyntaxError Program}
    (hts : ∀ t ∈ ts, ∀ n, t.kind = .number n → n.NonNegative) (hresult : parse ts = result) :
    HoldsNumbers ts result := by
  subst hresult
  have htree (p : Program) (h : parse ts = .ok p) : (Part.program p).Everywhere Part.NotNaN :=
    (readFrom_of_parse h).imp fun _ => Part.notNaN_of_saidBy hts
  exact ⟨hts, Token.sameList_self fun t ht => Token.same_self (hts t ht), htree,
    fun p h => stmts_same_self p fun _ => (htree p h).child⟩

theorem holdsNumbers_tokenize (source : String) (log : Log) :
    HoldsNumbers (tokenize source) (parseInto log source).1 := by
  refine holdsNumbers_of_tokens (fun t ht n hkind => ?_) (result_parseInto source log).symm
  rw [← tokenizeBy_ofDecimal?] at ht
  exact nonNegative_of_mem_tokenizeBy readsDecimals_ofDecimal? ht hkind

/-- Nothing in a source is NaN, whatever reads its decimals, nor is it where they are read as the
nearest doubles. The text of each number is hexadecimal or one that is read. -/
theorem source_holdsNumbers {read : List Char → Option Binary64} (hread : ReadsDecimals read)
    (source : String) (log : Log) :
    HoldsNumbers (tokenizeBy read source) (parse (tokenizeBy read source)) ∧
      HoldsNumbers (tokenize source) (parseInto log source).1 ∧
      ∀ t ∈ tokenize source, ∀ n, t.kind = .number n →
        t.text.toList ∈ Lexeme.hexadecimal ∨ (read t.text.toList).isSome = true := by
  refine ⟨?_, holdsNumbers_tokenize source log, fun t ht n hkind => ?_⟩
  · exact holdsNumbers_of_tokens (fun t ht n => nonNegative_of_mem_tokenizeBy hread ht) rfl
  · obtain ⟨l, hwf, htext, -⟩ := exists_literal_of_mem_tokenize ht hkind
    rw [htext]
    cases l with
    | hexadecimal ds => exact .inl (Lexeme.mem_hexadecimal.mpr ⟨ds, hwf, rfl⟩)
    | decimal whole fraction exponent =>
      obtain ⟨x, hx, -⟩ := hread _ (Lexeme.mem_decimal.mpr ⟨_, _, _, hwf, rfl⟩)
      exact .inr (by rw [hx]; rfl)

/-- Numbers that whole numbers do not hold, one with a sign, and one that is past all doubles. -/
theorem source_holdsNumbers_large : ReadsDecimals Binary64.ofDecimal? ∧ ∃ p,
    (parseInto .empty "return -9223372036854775808, 0xffffffffffffffff, 1.5e400").1 = .ok p ∧
      (Part.program p).Everywhere Part.NotNaN ∧ Program.same p p = true := by
  have hparses : (parse (tokenize
      "return -9223372036854775808, 0xffffffffffffffff, 1.5e400")).toBool = true := by
    decide +kernel
  have hread := readsDecimals_ofDecimal?
  obtain ⟨-, hnumbers, -⟩ := source_holdsNumbers hread
    "return -9223372036854775808, 0xffffffffffffffff, 1.5e400" .empty
  cases h : parse (tokenize "return -9223372036854775808, 0xffffffffffffffff, 1.5e400") with
  | error e => simp [h, Except.toBool] at hparses
  | ok p =>
    have hresult := (result_parseInto _ .empty).trans h
    exact ⟨hread, p, hresult, hnumbers.tree p hresult, hnumbers.tree_same p hresult⟩

end LuaSyntax
