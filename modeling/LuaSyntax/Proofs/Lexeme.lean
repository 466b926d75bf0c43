import LuaSyntax.Proofs.Digits
import LuaSyntax.Proofs.Lookahead
import Mathlib.Computability.Language

/-!
What a token other than a string can be spelled like, as regular languages of characters, and the
numbers that numerals spell. The characters are given by ranges and the fixed spellings by lists, with
no scanner in sight.
-/
namespace LuaSyntax

open scoped Computability

theorem Keyword.mem_all (k : Keyword) : k ∈ all := by cases k <;> decide

namespace Lexeme

/-- The texts of one character of a class. -/
def one (p : Char → Prop) : Language Char := {s | ∃ c, p c ∧ s = [c]}

/-- The texts of one or more characters of a class. -/
def run (p : Char → Prop) : Language Char := one p * (one p)∗

def Letter (c : Char) : Prop := 'a' ≤ c ∧ c ≤ 'z' ∨ 'A' ≤ c ∧ c ≤ 'Z' ∨ c = '_'

def Digit (c : Char) : Prop := '0' ≤ c ∧ c ≤ '9'

def HexDigit (c : Char) : Prop := Digit c ∨ 'a' ≤ c ∧ c ≤ 'f' ∨ 'A' ≤ c ∧ c ≤ 'F'

def word : Language Char := one Letter * (one fun c => Letter c ∨ Digit c)∗

def hexadecimal : Language Char := one (· = '0') * one (· = 'x') * run HexDigit

def fraction : Language Char := one (· = '.') * run Digit

def exponent : Language Char :=
  one (fun c => c = 'e' ∨ c = 'E') * (1 + one fun c => c = '+' ∨ c = '-') * run Digit

def decimal : Language Char := run Digit * (1 + fraction) * (1 + exponent)

def number : Language Char := hexadecimal + decimal

def symbols : List String :=
  ["==", "~=", "<=", ">=", "..", "<", ">", "+", "-", "*", "/", "%", "^", "(", ")", "\x7b", "\x7d",
   "[", "]", ";", ":", ",", ".", "="]

def symbol : Language Char := {s | String.ofList s ∈ symbols}

def reserved : List String :=
  ["and", "break", "do", "else", "elseif", "end", "false", "for", "function", "if", "in", "local",
   "nil", "not", "or", "repeat", "return", "then", "true", "until", "while"]

/-- The spellings of tokens, strings left aside. -/
def any : Language Char := word + number + symbol

/-- A numeral without fraction and exponent, and the number that it spells. -/
inductive Spells : List Char → Nat → Prop
  | decimal {ds : List Char} : ds ∈ run Digit → Spells ds (denoted 10 ds)
  | hexadecimal {ds : List Char} : ds ∈ run HexDigit → Spells ('0' :: 'x' :: ds) (denoted 16 ds)

section

variable {p : Char → Prop} {c : Char} {s : List Char}

theorem letter_iff : Letter c ↔ isWordStart c = true := by
  simp [Letter, isWordStart, isAlpha_iff, or_assoc, or_left_comm]

theorem digit_iff : Digit c ↔ c.isDigit = true := isDigit_iff.symm

theorem hexDigit_iff : HexDigit c ↔ isHexDigit c = true := by
  simp [HexDigit, isHexDigit, digit_iff, or_assoc]

theorem wordChar_iff : Letter c ∨ Digit c ↔ isWordChar c = true := by
  simp [letter_iff, digit_iff, isWordStart, isWordChar, Char.isAlphanum, or_right_comm]

theorem mem_one_mul {l : Language Char} :
    s ∈ one p * l ↔ ∃ c r, p c ∧ r ∈ l ∧ s = c :: r := by
  rw [Language.mem_mul]
  constructor
  · rintro ⟨-, ⟨c, hc, rfl⟩, r, hr, rfl⟩
    exact ⟨c, r, hc, hr, rfl⟩
  · rintro ⟨c, r, hc, hr, rfl⟩
    exact ⟨[c], ⟨c, hc, rfl⟩, r, hr, rfl⟩

theorem mem_kstar_one : s ∈ (one p)∗ ↔ ∀ c ∈ s, p c := by
  rw [Language.mem_kstar]
  constructor
  · rintro ⟨parts, rfl, hparts⟩ c hc
    obtain ⟨part, hpart, hmem⟩ := List.mem_flatten.mp hc
    obtain ⟨d, hd, rfl⟩ := hparts part hpart
    rwa [List.mem_singleton.mp hmem]
  · intro h
    have hs : s = (s.map fun c => [c]).flatten := by rw [← List.flatMap_def, List.flatMap_singleton']
    refine ⟨_, hs, fun part hpart => ?_⟩
    obtain ⟨c, hc, rfl⟩ := List.mem_map.mp hpart
    exact ⟨c, h c hc, rfl⟩

theorem mem_run : s ∈ run p ↔ s ≠ [] ∧ ∀ c ∈ s, p c := by
  rw [run, mem_one_mul]
  constructor
  · rintro ⟨c, r, hc, hr, rfl⟩
    exact ⟨List.cons_ne_nil c r, List.forall_mem_cons.mpr ⟨hc, mem_kstar_one.mp hr⟩⟩
  · rintro ⟨hne, h⟩
    obtain ⟨c, r, rfl⟩ := List.exists_cons_of_ne_nil hne
    obtain ⟨hc, hr⟩ := List.forall_mem_cons.mp h
    exact ⟨c, r, hc, mem_kstar_one.mpr hr, rfl⟩

theorem mem_digits : s ∈ run Digit ↔ s ≠ [] ∧ ∀ c ∈ s, c.isDigit = true := by
  simp only [mem_run, digit_iff]

theorem mem_hexDigits : s ∈ run HexDigit ↔ s ≠ [] ∧ ∀ c ∈ s, isHexDigit c = true := by
  simp only [mem_run, hexDigit_iff]

theorem cons_mem_word : c :: s ∈ word ↔ isWordStart c = true ∧ ∀ d ∈ s, isWordChar d = true := by
  simp only [word, mem_one_mul, mem_kstar_one, letter_iff.symm, wordChar_iff.symm, List.cons.injEq]
  constructor
  · rintro ⟨d, r, hd, hr, rfl, rfl⟩
    exact ⟨hd, hr⟩
  · exact fun ⟨hc, hs⟩ => ⟨c, s, hc, hs, rfl, rfl⟩

theorem mem_hexadecimal : s ∈ hexadecimal ↔
    ∃ ds, (NumberLiteral.hexadecimal ds).WellFormed ∧ (NumberLiteral.hexadecimal ds).text = s := by
  simp only [hexadecimal, mul_assoc, mem_one_mul, mem_hexDigits]
  constructor
  · rintro ⟨-, -, rfl, ⟨-, ds, rfl, hds, rfl⟩, rfl⟩
    exact ⟨ds, hds, rfl⟩
  · rintro ⟨ds, hds, rfl⟩
    exact ⟨'0', 'x' :: ds, rfl, ⟨'x', ds, rfl, hds, rfl⟩, rfl⟩

theorem mem_sign : s ∈ 1 + one p ↔ ∃ sign : Option Char, (∀ c ∈ sign, p c) ∧ sign.toList = s := by
  rw [Language.mem_add, Language.mem_one]
  constructor
  · rintro (rfl | ⟨c, hc, rfl⟩)
    · exact ⟨none, by simp, rfl⟩
    · exact ⟨some c, by simpa using hc, rfl⟩
  · rintro ⟨sign, hsign, rfl⟩
    cases sign with
    | none => exact .inl rfl
    | some c => exact .inr ⟨c, hsign c rfl, rfl⟩

theorem mem_fraction : s ∈ 1 + fraction ↔ ∃ ds : List Char,
    (∀ c ∈ ds, c.isDigit = true) ∧ (if ds.isEmpty then [] else '.' :: ds) = s := by
  rw [Language.mem_add, Language.mem_one, fraction, mem_one_mul]
  constructor
  · rintro (rfl | ⟨-, ds, rfl, hds, rfl⟩)
    · exact ⟨[], by simp, rfl⟩
    · obtain ⟨hne, hdigits⟩ := mem_digits.mp hds
      exact ⟨ds, hdigits, by simp [hne]⟩
  · rintro ⟨ds, hds, rfl⟩
    cases ds with
    | nil => exact .inl rfl
    | cons d ds => exact .inr ⟨'.', d :: ds, rfl, mem_digits.mpr ⟨List.cons_ne_nil d ds, hds⟩, rfl⟩

theorem mem_exponent : s ∈ exponent ↔ ∃ e : ExponentPart, e.WellFormed ∧ e.text = s := by
  simp only [exponent, mul_assoc, mem_one_mul]
  constructor
  · rintro ⟨letter, -, hletter, ⟨text, htext, digits, hds, rfl⟩, rfl⟩
    obtain ⟨sign, hsign, rfl⟩ := mem_sign.mp htext
    obtain ⟨hne, hdigits⟩ := mem_digits.mp hds
    exact ⟨⟨letter, sign, digits⟩, ⟨hletter, hsign, hne, hdigits⟩, rfl⟩
  · rintro ⟨e, he, rfl⟩
    exact ⟨e.letter, _, he.letter, ⟨_, mem_sign.mpr ⟨e.sign, he.sign, rfl⟩, e.digits,
      mem_digits.mpr ⟨he.digits_ne_nil, he.digits⟩, rfl⟩, rfl⟩

theorem mem_optional_exponent : s ∈ 1 + exponent ↔ ∃ e? : Option ExponentPart,
    (∀ e ∈ e?, e.WellFormed) ∧ (e?.map ExponentPart.text).getD [] = s := by
  rw [Language.mem_add, Language.mem_one, mem_exponent]
  constructor
  · rintro (rfl | ⟨e, he, rfl⟩)
    · exact ⟨none, by simp, rfl⟩
    · exact ⟨some e, by simpa using he, rfl⟩
  · rintro ⟨e?, he, rfl⟩
    cases e? with
    | none => exact .inl rfl
    | some e => exact .inr ⟨e, he e rfl, rfl⟩

theorem mem_decimal : s ∈ decimal ↔ ∃ whole fraction exponent,
    (NumberLiteral.decimal whole fraction exponent).WellFormed ∧
      (NumberLiteral.decimal whole fraction exponent).text = s := by
  simp only [decimal, Language.mem_mul, mem_digits, mem_fraction, mem_optional_exponent]
  constructor
  · rintro ⟨-, ⟨whole, ⟨hne, hwhole⟩, -, ⟨ds, hds, rfl⟩, rfl⟩, -, ⟨e?, he, rfl⟩, rfl⟩
    exact ⟨whole, ds, e?, ⟨hne, hwhole, hds, he⟩, rfl⟩
  · rintro ⟨whole, ds, e?, ⟨hne, hwhole, hds, he⟩, rfl⟩
    exact ⟨_, ⟨whole, ⟨hne, hwhole⟩, _, ⟨ds, hds, rfl⟩, rfl⟩, _, ⟨e?, he, rfl⟩, rfl⟩

theorem mem_number : s ∈ number ↔ ∃ l : NumberLiteral, l.WellFormed ∧ l.text = s := by
  rw [number, Language.mem_add, mem_hexadecimal, mem_decimal]
  constructor
  · rintro (⟨ds, h⟩ | ⟨whole, fraction, exponent, h⟩)
    · exact ⟨_, h⟩
    · exact ⟨_, h⟩
  · rintro ⟨l, h⟩
    cases l with
    | hexadecimal ds => exact .inl ⟨ds, h⟩
    | decimal whole fraction exponent => exact .inr ⟨whole, fraction, exponent, h⟩

theorem symbols_eq : symbols = Symbol.all.map fun y => String.ofList y.chars := by decide

theorem mem_symbol : s ∈ symbol ↔ ∃ y : Symbol, y.chars = s := by
  change String.ofList s ∈ symbols ↔ _
  simp [symbols_eq, Symbol.mem_all, String.ofList_inj]

theorem reserved_eq : reserved = Keyword.all.map Keyword.spelling := rfl

theorem mem_reserved {w : String} : w ∈ reserved ↔ ∃ k : Keyword, k.spelling = w := by
  simp [reserved_eq, Keyword.mem_all]

end

end Lexeme

end LuaSyntax
