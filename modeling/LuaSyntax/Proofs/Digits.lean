import LuaSyntax.Number.Digits
import Mathlib.Data.List.Induction
import Mathlib.Data.Nat.Digits.Defs

/-!
What digits denote. A digit stands for its place in the row of all sixteen, and a text of digits for a
number in a base; digits that are read from the left come to that number.
-/
namespace LuaSyntax

/-- The place of a digit, of either case, in the row of all digits. -/
def digitPlace (c : Char) : Nat := "0123456789abcdef".toList.idxOf c.toLower

/-- The number that digits denote in a base. -/
def denoted (base : Nat) (digits : List Char) : Nat :=
  Nat.ofDigits base (digits.reverse.map digitPlace)

theorem isDigit_iff {c : Char} : c.isDigit = true ↔ '0' ≤ c ∧ c ≤ '9' := by
  simp [Char.isDigit, Char.le_def]

theorem isHexDigit_of_isDigit {c : Char} (h : c.isDigit = true) : isHexDigit c = true := by
  simp [isHexDigit, h]

/-- What holds of each digit holds of a character that is one. -/
theorem forall_hexDigit {P : Char → Prop}
    (h : ∀ n < 128, isHexDigit (Char.ofNat n) = true → P (Char.ofNat n)) {c : Char}
    (hc : isHexDigit c = true) : P c := by
  have hle (a b : Char) : a ≤ b ↔ a.toNat ≤ b.toNat := Iff.rfl
  have hnine : '9'.toNat = 57 := rfl
  have hupper : 'F'.toNat = 70 := rfl
  have hlower : 'f'.toNat = 102 := rfl
  have hlt : c.toNat < 128 := by
    simp only [isHexDigit, Bool.or_eq_true, Bool.and_eq_true, decide_eq_true_eq, isDigit_iff,
      hle] at hc
    omega
  have hchar : Char.ofNat c.toNat = c := Char.ofNat_toNat c
  rw [← hchar] at hc ⊢
  exact h _ hlt hc

theorem digitValue_eq {c : Char} (h : isHexDigit c = true) : digitValue c = digitPlace c :=
  forall_hexDigit (P := fun c => digitValue c = digitPlace c) (by decide +kernel) h

theorem digitPlace_lt {c : Char} (h : isHexDigit c = true) : digitPlace c < 16 :=
  forall_hexDigit (P := fun c => digitPlace c < 16) (by decide +kernel) h

variable (base : Nat) {ds : List Char}

theorem denoted_concat (ds : List Char) (c : Char) :
    denoted base (ds ++ [c]) = base * denoted base ds + digitPlace c := by
  simp [denoted, Nat.ofDigits_cons, Nat.add_comm]

theorem denoted_append (ds es : List Char) :
    denoted base (ds ++ es) = denoted base ds * base ^ es.length + denoted base es := by
  simp [denoted, Nat.ofDigits_append, Nat.add_comm, Nat.mul_comm]

theorem denoted_lt (h : ∀ c ∈ ds, isHexDigit c = true) : denoted 16 ds < 16 ^ ds.length := by
  have hplaces : ∀ d ∈ ds.reverse.map digitPlace, d < 16 := by
    simpa using fun c hc => digitPlace_lt (h c hc)
  have hlt := Nat.ofDigits_lt_base_pow_length (by decide) hplaces
  simpa [denoted] using hlt

theorem readDigits_eq (h : ∀ c ∈ ds, isHexDigit c = true) : readDigits base ds = denoted base ds := by
  induction ds using List.reverseRecOn with
  | nil => rfl
  | append_singleton ds c ih =>
    have hds := ih fun d hd => h d (by simp [hd])
    have hc := digitValue_eq (h c (by simp))
    rw [denoted_concat, ← hds, ← hc]
    simp [readDigits]

end LuaSyntax
