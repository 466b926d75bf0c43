import LuaSyntax.Proofs.CommandOutcome
import LuaSyntax.Proofs.NotANumber

/-!
The printed list of tokens. Neither a token nor what is printed before it has a line feed, and only
the token can have a tab; so the lines of the list are those of the tokens, and each of them can be
read back, the value of a number from its text.
-/
namespace LuaSyntax

/-- What is printed for the tokens of a source. -/
def listing (source : String) : String := textLines ((tokenize source).map Token.lineText)

/-- What comes before the first tab, and what after it. -/
def cutTab? (s : List Char) : Option (List Char × List Char) :=
  if '\t' ∈ s then some (s.takeWhile (· ≠ '\t'), (s.dropWhile (· ≠ '\t')).tail) else none

/-- The number that decimal digits denote. -/
def decimalNumber? (digits : List Char) : Option Nat :=
  if digits ≠ [] ∧ digits.all Char.isDigit = true then some (Nat.ofDigitChars 10 digits 0) else none

namespace TokenKind

/-- Every kind but that of numbers, which is one for each number. -/
def valueless : List TokenKind :=
  [name, string] ++ Keyword.all.map keyword ++ Symbol.all.map symbol

/-- The kind of a token by what is printed for its kind and by its own text. -/
def read? (kind text : List Char) : Option TokenKind :=
  if kind = "number".toList then some (number (NumberLiteral.scan text).value)
  else valueless.find? fun k => k.text.toList = kind

end TokenKind

def Token.read? (line : List Char) : Option Token := do
  let (number, rest) ← cutTab? line
  let (kind, text) ← cutTab? rest
  let n ← decimalNumber? number
  let k ← TokenKind.read? kind text
  return ⟨k, String.ofList text, n⟩

/-- The lines of a text are those of the tokens, in three columns each, and can be read as the
tokens. -/
structure Lists (text : String) (ts : List Token) : Prop where
  lines : text.toList.splitOn '\n' = ts.map (fun t => t.lineText.toList) ++ [[]]
  columns : ∀ t ∈ ts, ∃ rest, cutTab? t.lineText.toList = some (decimalDigits t.line, rest) ∧
    cutTab? rest = some (t.kind.text.toList, t.text.toList)
  tokens : (text.toList.splitOn '\n').dropLast.mapM Token.read? = some ts

/-- A run of the command line that reads a source to list its tokens, and what it prints. -/
inductive PrintsTokens : String → String → Prop
  | run {σ : Type} {files : Files (StateM σ)} {before : σ} {args : List String} {o : Options}
      {source : String} : Options.ofArguments args = .ok o → o.mode = .tokenize →
      (files.read o.file).run before = (.ok source, before) →
      PrintsTokens source ((runCommand files args).run before).1.stdout

theorem cutTab?_append {s : List Char} (hs : '\t' ∉ s) (r : List Char) :
    cutTab? (s ++ '\t' :: r) = some (s, r) := by
  have hfree : ∀ c ∈ s, decide (c ≠ '\t') = true := fun c hc =>
    decide_eq_true (ne_of_mem_of_not_mem hc hs)
  rw [cutTab?, if_pos (by simp), List.takeWhile_append_of_pos hfree,
    List.dropWhile_append_of_pos hfree]
  simp

theorem decimalNumber?_digits (n : Nat) : decimalNumber? (decimalDigits n) = some n := by
  have hdigits : (decimalDigits n).all Char.isDigit = true :=
    List.all_eq_true.mpr fun _ => Nat.isDigit_of_mem_toDigits (by decide) (by decide)
  rw [decimalNumber?, if_pos ⟨Nat.toDigits_ne_nil, hdigits⟩, decimalDigits,
    Nat.ofDigitChars_ten_toDigits]

namespace TokenKind

theorem mem_valueless {kind : TokenKind} (h : ∀ n, kind ≠ number n) : kind ∈ valueless := by
  cases kind with
  | keyword k => simp [valueless, Keyword.mem_all]
  | symbol y => simp [valueless, Symbol.mem_all]
  | name | string => simp [valueless]
  | number n => exact absurd rfl (h n)

/-- No two kinds are printed in the same way, and none like a number. -/
theorem find?_text : ∀ k ∈ valueless, '\t' ∉ k.text.toList ∧ k.text.toList ≠ "number".toList ∧
    (valueless.find? fun l => l.text.toList = k.text.toList) = some k := by
  decide +kernel

theorem tab_notMem_text (kind : TokenKind) : '\t' ∉ kind.text.toList := by
  by_cases h : ∀ n, kind ≠ number n
  · exact (find?_text kind (mem_valueless h)).1
  · obtain ⟨n, hn⟩ := not_forall_not.mp h
    rw [hn]
    exact (by decide : '\t' ∉ "number".toList)

end TokenKind

/-- The text of a number has its value. -/
theorem value_of_mem_tokenize {source : String} {t : Token} {n : Numeral} (h : t ∈ tokenize source)
    (hkind : t.kind = .number n) : n = (NumberLiteral.scan t.text.toList).value := by
  obtain ⟨l, hwf, htext, hvalue⟩ := exists_literal_of_mem_tokenize h hkind
  rw [htext, NumberLiteral.scan_text hwf, hvalue]

namespace Token

theorem toList_lineText (t : Token) : t.lineText.toList =
    decimalDigits t.line ++ '\t' :: (t.kind.text.toList ++ '\t' :: t.text.toList) := by
  simp [lineText, decimalDigits]

theorem columns (t : Token) :
    cutTab? t.lineText.toList =
      some (decimalDigits t.line, t.kind.text.toList ++ '\t' :: t.text.toList) ∧
    cutTab? (t.kind.text.toList ++ '\t' :: t.text.toList) =
      some (t.kind.text.toList, t.text.toList) := by
  have hline : '\t' ∉ decimalDigits t.line := by
    intro hmem
    cases Nat.isDigit_of_mem_toDigits (by decide) (by decide) hmem
  rw [toList_lineText]
  exact ⟨cutTab?_append hline _, cutTab?_append t.kind.tab_notMem_text _⟩

variable {source other : String} {t u : Token}

theorem oneLine_lineText (h : t ∈ tokenize source) : OneLine t.lineText := by
  change OneLine (toString t.line ++ "\t" ++ t.kind.text ++ "\t" ++ t.text)
  simp +decide [t.kind.oneLine_text, oneLine_of_mem_tokenize h]

theorem read?_kind (h : t ∈ tokenize source) :
    TokenKind.read? t.kind.text.toList t.text.toList = some t.kind := by
  by_cases hnumber : ∀ n, t.kind ≠ .number n
  · obtain ⟨-, hne, hfind⟩ := TokenKind.find?_text t.kind (TokenKind.mem_valueless hnumber)
    rw [TokenKind.read?, if_neg hne, hfind]
  · obtain ⟨n, hn⟩ := not_forall_not.mp hnumber
    rw [hn, value_of_mem_tokenize h hn]
    exact if_pos rfl

theorem read?_lineText (h : t ∈ tokenize source) : read? t.lineText.toList = some t := by
  obtain ⟨hline, hkind⟩ := t.columns
  simp [read?, hline, hkind, decimalNumber?_digits, read?_kind h]

/-- Tokens with the same text have the same number, so it makes no difference that numbers are
compared as numbers. -/
theorem eq_of_same (ht : t ∈ tokenize source) (hu : u ∈ tokenize other) (h : t.same u = true) :
    t = u := by
  simp only [same, Bool.and_eq_true, decide_eq_true_eq] at h
  obtain ⟨⟨hsame, htext⟩, hline⟩ := h
  have hkind : t.kind = u.kind := by
    cases hk : t.kind with
    | number v =>
      cases hl : u.kind with
      | number w => rw [value_of_mem_tokenize ht hk, value_of_mem_tokenize hu hl, htext]
      | _ => simp [hk, hl, TokenKind.same] at hsame
    | _ => simpa [hk, TokenKind.same] using hsame
  cases t
  cases u
  simp_all

theorem eq_of_sameList {ts us : List Token} (hts : ∀ t ∈ ts, ∀ u ∈ us, t.same u = true → t = u)
    (h : sameList ts us = true) : ts = us := by
  induction ts generalizing us with
  | nil =>
    cases us with
    | nil => rfl
    | cons u us => cases h
  | cons t ts ih =>
    cases us with
    | nil => cases h
    | cons u us =>
      simp only [sameList, Bool.and_eq_true] at h
      have hrest : ∀ x ∈ ts, ∀ y ∈ us, x.same y = true → x = y := fun x hx y hy =>
        hts x (.tail _ hx) y (.tail _ hy)
      rw [hts t (.head _) u (.head _) h.1, ih hrest h.2]

end Token

theorem stdout_run {σ : Type} {files : Files (StateM σ)} {o : Options} {before : σ}
    {source : String} (hmode : o.mode = .tokenize)
    (hread : (files.read o.file).run before = (.ok source, before)) :
    ((o.run files).run before).1.stdout = listing source := by
  rw [Options.run_of_read (by simp [hmode]) hread, Options.runSource, if_pos hmode]
  change (Outcome.finished (listing source) (diagnose source)).stdout = listing source
  rw [Outcome.finished]
  split <;> rfl

section

variable (source other : String)

theorem lists_listing : Lists (listing source) (tokenize source) := by
  have hlines : (listing source).toList.splitOn '\n' =
      (tokenize source).map (fun t => t.lineText.toList) ++ [[]] := by
    have hone : ∀ s ∈ (tokenize source).map Token.lineText, OneLine s :=
      List.forall_mem_map.mpr fun _ => Token.oneLine_lineText
    rw [listing, splitOn_textLines hone, List.map_map]
    rfl
  have hread (ts : List Token) (hts : ∀ t ∈ ts, Token.read? t.lineText.toList = some t) :
      (ts.map fun t => t.lineText.toList).mapM Token.read? = some ts := by
    induction ts with
    | nil => rfl
    | cons t ts ih =>
      obtain ⟨ht, hts⟩ := List.forall_mem_cons.mp hts
      simp [List.mapM_cons, ht, ih hts]
  refine ⟨hlines, fun t _ => ⟨_, t.columns⟩, ?_⟩
  rw [hlines, List.dropLast_concat]
  exact hread _ fun _ => Token.read?_lineText

theorem listing_inj : listing source = listing other ↔ tokenize source = tokenize other := by
  refine ⟨fun h => ?_, fun h => by rw [listing, listing, h]⟩
  have hsource := (lists_listing source).tokens
  rw [h, (lists_listing other).tokens] at hsource
  exact (Option.some.inj hsource).symm

theorem sameList_iff : Token.sameList (tokenize source) (tokenize other) = true ↔
    tokenize source = tokenize other := by
  constructor
  · exact Token.eq_of_sameList fun _ ht _ hu => Token.eq_of_same ht hu
  · intro h
    rw [← h]
    exact (holdsNumbers_tokenize source .empty).tokens_same

/-- Every run that lists the tokens of the source prints this, and there is one. -/
theorem printsTokens_iff (stdout : String) :
    PrintsTokens source stdout ↔ stdout = listing source := by
  constructor
  · rintro ⟨hargs, hmode, hread⟩
    rw [runCommand, hargs]
    exact stdout_run hmode hread
  · rintro rfl
    let files : Files (StateM Unit) := ⟨fun _ => pure (.ok source), fun _ _ => pure (.ok ())⟩
    have hargs : Options.ofArguments ["t", "a.lua"] = .ok ⟨.tokenize, "a.lua", none⟩ :=
      Options.ofArguments_eq_ok (by decide +kernel)
    have hread : (files.read "a.lua").run () = (.ok source, ()) := rfl
    have hrun : ((runCommand files ["t", "a.lua"]).run ()).1.stdout = listing source := by
      rw [runCommand, hargs]
      exact stdout_run rfl hread
    rw [← hrun]
    exact .run hargs rfl hread

/-- The list of tokens that is printed for a source has one line for each of them, and from it they
can be read back. So sources for which the same list is printed have the same tokens. -/
theorem listing_faithful : (∀ stdout, PrintsTokens source stdout ↔ stdout = listing source) ∧
    Lists (listing source) (tokenize source) ∧
    (listing source = listing other ↔
      Token.sameList (tokenize source) (tokenize other) = true) ∧
    (Token.sameList (tokenize source) (tokenize other) = true ↔
      tokenize source = tokenize other) := by
  refine ⟨printsTokens_iff source, lists_listing source, ?_, sameList_iff source other⟩
  rw [sameList_iff, listing_inj]

end

end LuaSyntax
