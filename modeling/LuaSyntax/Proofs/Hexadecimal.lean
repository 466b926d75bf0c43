import LuaSyntax.Proofs.AssignedValue
import LuaSyntax.Proofs.Digits
import LuaSyntax.Proofs.Lookahead
import LuaSyntax.Proofs.Nearest
import Mathlib.Tactic.Ring

/-!
The value of a hexadecimal literal. It is read digit by digit, and rounded with the first digit that
53 bits do not hold; the digits after that only count as places. So the value is the double nearest
to the number, unless the digits up to that one are a tie that is rounded down and others follow.
-/
namespace LuaSyntax

namespace Magnitude

/-- A product with sixteen is rounded as if it were one of units. -/
theorem mul_sixteen (x : Magnitude) : x.mul (ofNat 16) = ofUnits (x.units * 2 ^ 4) 1 := by
  rw [mul, units_ofNat (by decide), ← Nat.mul_assoc, ofUnits_mul _ unitsPerOne_pos]
  rfl

/-- One more digit is nothing lost as long as the number before it fits into 53 bits. -/
theorem add_digit_ofNat {n d : Nat} (hn : n < 2 ^ 53) (hd : d < 16) :
    ((ofNat n).mul (ofNat 16)).add (ofNat d) = ofNat (16 * n + d) := by
  have hexact : (ofUnits (n * unitsPerOne * 2 ^ 4) 1).units = 16 * n * unitsPerOne := by
    rw [Nat.mul_right_comm, units_ofUnits_ones hn 4 (by decide), Nat.mul_comm n]
    rfl
  rw [mul_sixteen, units_ofNat hn, add, hexact, units_ofNat (by omega), ← Nat.add_mul]
  rfl

/-- Where the gaps are 32 and more a digit is rounded away. -/
theorem add_digit_large {x : Magnitude} {d : Nat} (hx : 1080 * 2 ^ 52 ≤ x.code) (hd : d < 16) :
    x.add (ofNat d) = x := by
  have hgap : 2 ^ 5 * unitsPerOne ≤ gapAt x.code := by
    rw [unitsPerOne_eq, ← Nat.pow_add, gapAt]
    refine Nat.pow_le_pow_right (by decide) ?_
    unfold scaleAt unitExponent
    omega
  have hdigit : d * unitsPerOne ≤ 15 * unitsPerOne := Nat.mul_le_mul_right _ (by omega)
  have hpos := unitsPerOne_pos
  refine ext_code ?_
  rw [add, units_ofNat (by omega), code_ofUnits, units_eq, roundedCode_add (by omega),
    if_pos (by omega), Nat.min_eq_left x.code_le]

theorem code_mul_sixteen {x : Magnitude} (hx : 2 ^ 52 ≤ x.code) :
    (x.mul (ofNat 16)).code = min (x.code + 4 * 2 ^ 52) infinityCode := by
  rw [mul_sixteen, units_eq, ← unitsAt_add hx, code_ofUnits, roundedCode_unitsAt]

/-- There the next digit only counts as a place. -/
theorem code_add_digit {x : Magnitude} {d : Nat} (hx : 1076 * 2 ^ 52 ≤ x.code) (hd : d < 16) :
    ((x.mul (ofNat 16)).add (ofNat d)).code = min (x.code + 4 * 2 ^ 52) infinityCode := by
  have hcode := code_mul_sixteen (show 2 ^ 52 ≤ x.code by omega)
  have hinf : 1080 * 2 ^ 52 ≤ infinityCode := by decide
  rw [add_digit_large (by omega) hd, hcode]

/-- A whole number with the code below it: how much there is in excess of it, and half the gap. -/
structure Below (n c excess half : Nat) : Prop where
  value : n * unitsPerOne = unitsAt c + excess * unitsPerOne
  gap : gapAt c = 2 * half * unitsPerOne
  excess_lt : excess < 2 * half
  le_code : 1076 * 2 ^ 52 ≤ c

theorem exists_below_code {n : Nat} (hn : 2 ^ 53 ≤ n) : ∃ c, c % 2 = n / 2 ^ (n.log2 - 52) % 2 ∧
    Below n c (n % 2 ^ (n.log2 - 52)) (2 ^ (n.log2 - 53)) := by
  have hne : n ≠ 0 := Nat.ne_of_gt (Nat.lt_of_lt_of_le (by decide) hn)
  obtain ⟨t, ht⟩ : ∃ t, n.log2 = 53 + t := Nat.exists_eq_add_of_le ((Nat.le_log2 hne).mpr hn)
  have hscale : n.log2 - 52 = t + 1 := by omega
  have hhalf : n.log2 - 53 = t := by omega
  rw [hscale, hhalf]
  have hpos : 0 < 2 ^ (t + 1) := Nat.two_pow_pos _
  have hlow : 2 ^ 52 ≤ n / 2 ^ (t + 1) := by
    rw [Nat.le_div_iff_mul_le hpos, ← Nat.pow_add, Nat.add_comm t, ← Nat.add_assoc, ← ht]
    exact Nat.log2_self_le hne
  have hhigh : n / 2 ^ (t + 1) < 2 ^ 53 := by
    rw [Nat.div_lt_iff_lt_mul hpos, ← Nat.pow_add, ← Nat.add_assoc, ← ht]
    exact Nat.lt_log2_self
  have hgap : 2 ^ (1074 + (t + 1)) = 2 ^ (t + 1) * unitsPerOne := by
    rw [unitsPerOne_eq, ← Nat.pow_add, Nat.add_comm, unitExponent]
  refine ⟨(1074 + (t + 1)) * 2 ^ 52 + n / 2 ^ (t + 1), by omega, ?_, ?_, ?_, by omega⟩
  · rw [unitsAt_place hhigh (.inl hlow), hgap, ← Nat.mul_assoc, ← Nat.add_mul, Nat.div_add_mod']
  · rw [gapAt, scaleAt_place hhigh (.inl hlow), hgap, Nat.pow_succ']
  · rw [← Nat.pow_succ']
    exact Nat.mod_lt _ hpos

namespace Below

variable {n c excess half : Nat}

theorem excess_lt_gap (h : Below n c excess half) : excess * unitsPerOne < gapAt c := by
  rw [h.gap]
  exact Nat.mul_lt_mul_of_pos_right h.excess_lt unitsPerOne_pos

theorem rounded (h : Below n c excess half) : roundedCode (n * unitsPerOne) =
    if excess < half then c else if half < excess then c + 1 else c + c % 2 := by
  rw [h.value, roundedCode_add h.excess_lt_gap, h.gap, ← Nat.mul_assoc]
  simp only [Nat.mul_lt_mul_right unitsPerOne_pos, Nat.mul_lt_mul_left Nat.two_pos]

theorem le_rounded (h : Below n c excess half) : 1076 * 2 ^ 52 ≤ roundedCode (n * unitsPerOne) := by
  rw [h.value]
  exact Nat.le_trans h.le_code (le_roundedCode h.excess_lt_gap)

theorem lt_infinity_iff (h : Below n c excess half) :
    n * unitsPerOne < infinity.units ↔ c < infinityCode := by
  have hlt := h.excess_lt_gap
  rw [h.value, units_eq]
  constructor
  · intro hn
    exact strictMono_unitsAt.lt_iff_lt.mp (Nat.lt_of_le_of_lt (Nat.le_add_right _ _) hn)
  · intro hc
    have hnext : unitsAt (c + 1) ≤ unitsAt infinityCode := strictMono_unitsAt.monotone hc
    rw [unitsAt_succ] at hnext
    exact Nat.lt_of_lt_of_le (Nat.add_lt_add_left hlt _) hnext

/-- More digits make the gap larger, and the excess with it. -/
theorem shift (h : Below n c excess half) {k v : Nat} (hv : v < 16 ^ k) :
    Below (n * 16 ^ k + v) (c + 4 * k * 2 ^ 52) (excess * 16 ^ k + v) (half * 16 ^ k) := by
  have hc : 2 ^ 52 ≤ c := Nat.le_trans (by decide) h.le_code
  have hpow : 2 ^ (4 * k) = 16 ^ k := Nat.pow_mul 2 4 k
  refine ⟨?_, ?_, ?_, Nat.le_add_right_of_le h.le_code⟩
  · rw [unitsAt_add hc, hpow, Nat.add_mul, Nat.mul_right_comm, h.value]
    ring
  · rw [gapAt_add hc, hpow, h.gap]
    ring
  · calc excess * 16 ^ k + v < (excess + 1) * 16 ^ k := by rw [Nat.succ_mul]; omega
      _ ≤ 2 * half * 16 ^ k := Nat.mul_le_mul_right _ h.excess_lt
      _ = 2 * (half * 16 ^ k) := Nat.mul_assoc _ _ _

/-- The digits behind a number are lost in rounding, unless it lies halfway and above the even
code. -/
theorem rounded_shift (h : Below n c excess half) {k v : Nat} (hv : v < 16 ^ k) :
    roundedCode ((n * 16 ^ k + v) * unitsPerOne) = roundedCode (n * unitsPerOne) + 4 * k * 2 ^ 52 +
      if excess = half ∧ c % 2 = 0 ∧ v ≠ 0 then 1 else 0 := by
  have hpos : 0 < 16 ^ k := Nat.pow_pos (by decide)
  have heven : (c + 4 * k * 2 ^ 52) % 2 = c % 2 := by omega
  rw [(h.shift hv).rounded, h.rounded, heven]
  rcases Nat.lt_trichotomy excess half with hlt | rfl | hgt
  · have hless : excess * 16 ^ k + v < half * 16 ^ k := by
      calc excess * 16 ^ k + v < (excess + 1) * 16 ^ k := by rw [Nat.succ_mul]; omega
        _ ≤ half * 16 ^ k := Nat.mul_le_mul_right _ hlt
    rw [if_pos hless, if_pos hlt, if_neg (by omega), Nat.add_zero]
  · rw [if_neg (by omega), if_neg (Nat.lt_irrefl excess), if_neg (Nat.lt_irrefl excess)]
    rcases Nat.eq_zero_or_pos v with rfl | hvpos
    · rw [if_neg (by omega), if_neg (by omega)]
      omega
    · rw [if_pos (by omega)]
      split <;> omega
  · have hmore : half * 16 ^ k < excess * 16 ^ k + v :=
      Nat.lt_add_right _ (Nat.mul_lt_mul_of_pos_right hgt hpos)
    rw [if_neg (by omega), if_pos hmore, if_neg (by omega), if_pos hgt, if_neg (by omega)]
    omega

end Below

end Magnitude

/-- A number of more than 53 bits that is 53 bits and just half of the next one, the last of the 53
bits being zero. It lies halfway between two doubles and is rounded down. -/
def IsTieDown (n : Nat) : Prop :=
  n % 2 ^ (n.log2 - 52) = 2 ^ (n.log2 - 53) ∧ n / 2 ^ (n.log2 - 52) % 2 = 0

instance (n : Nat) : Decidable (IsTieDown n) := inferInstanceAs (Decidable (_ ∧ _))

/-- A number that is such a tie up to the first hexadecimal digit that 53 bits do not hold, and has
more digits behind it that are not all zero. -/
def HasEarlyTie (n : Nat) : Prop :=
  ∃ k, 2 ^ 53 ≤ n / 16 ^ k ∧ n / 16 ^ k < 2 ^ 57 ∧ IsTieDown (n / 16 ^ k) ∧ n % 16 ^ k ≠ 0

namespace NumberLiteral

open Magnitude

variable {ds tail : List Char}

theorem foldHexadecimal_concat {c : Char} (hc : isHexDigit c = true) (ds : List Char) :
    foldHexadecimal (ds ++ [c]) =
      ((foldHexadecimal ds).mul (.ofNat 16)).add (.ofNat (digitPlace c)) := by
  simp [foldHexadecimal, digitValue_eq hc]

/-- Digits are read exactly as long as 53 bits hold them, and the next one is rounded once. -/
theorem foldHexadecimal_eq_ofNat (h : ∀ c ∈ ds, isHexDigit c = true)
    (hn : denoted 16 ds / 16 < 2 ^ 53) : foldHexadecimal ds = .ofNat (denoted 16 ds) := by
  induction ds using List.reverseRecOn with
  | nil => exact ofNat_zero.symm
  | append_singleton ds c ih =>
    have hc := h c (by simp)
    rw [denoted_concat] at hn ⊢
    have hds := ih (fun d hd => h d (by simp [hd])) (by omega)
    rw [foldHexadecimal_concat hc, hds, add_digit_ofNat (by omega) (digitPlace_lt hc)]

theorem min_min_add (r k m : Nat) : min (min r m + k) m = min (r + k) m := by omega

/-- After that the digits only count as places. -/
theorem code_foldHexadecimal_append (head : List Char) (h : ∀ c ∈ tail, isHexDigit c = true)
    (hhead : 1076 * 2 ^ 52 ≤ (foldHexadecimal head).code) :
    (foldHexadecimal (head ++ tail)).code =
      min ((foldHexadecimal head).code + 4 * tail.length * 2 ^ 52) infinityCode := by
  induction tail using List.reverseRecOn with
  | nil =>
    have hle := (foldHexadecimal head).code_le
    simp [hle]
  | append_singleton tail c ih =>
    have hc := h c (by simp)
    have htail := ih fun d hd => h d (by simp [hd])
    have hinf : 1076 * 2 ^ 52 ≤ infinityCode := by decide
    rw [← List.append_assoc, foldHexadecimal_concat hc, code_add_digit (by omega) (digitPlace_lt hc),
      htail, List.length_append, List.length_singleton]
    omega

theorem exists_head (hn : 2 ^ 53 ≤ denoted 16 ds) (h : ∀ c ∈ ds, isHexDigit c = true) :
    ∃ head tail, ds = head ++ tail ∧ 2 ^ 53 ≤ denoted 16 head ∧
      denoted 16 head / 16 < 2 ^ 53 := by
  induction ds using List.reverseRecOn with
  | nil => exact absurd hn (by decide)
  | append_singleton ds c ih =>
    rcases Nat.lt_or_ge (denoted 16 (ds ++ [c]) / 16) (2 ^ 53) with hlt | hge
    · exact ⟨ds ++ [c], [], (List.append_nil _).symm, hn, hlt⟩
    · have hplace := digitPlace_lt (h c (by simp))
      rw [denoted_concat] at hge
      obtain ⟨head, tail, rfl, hhead⟩ := ih (by omega) fun d hd => h d (by simp [hd])
      exact ⟨head, tail ++ [c], List.append_assoc _ _ _, hhead⟩

end NumberLiteral

/-- There is only one digit that takes a number past 53 bits. -/
theorem not_past_twice {n k l : Nat} (hk : n / 16 ^ k < 2 ^ 57) (hl : 2 ^ 53 ≤ n / 16 ^ l) :
    l ≤ k := by
  by_contra hlt
  obtain ⟨j, rfl⟩ := Nat.exists_eq_add_of_lt (Nat.lt_of_not_le hlt)
  have hsplit : n / 16 ^ (k + j + 1) = n / 16 ^ k / 16 / 16 ^ j := by
    rw [Nat.div_div_eq_div_mul, Nat.div_div_eq_div_mul, ← Nat.pow_succ', ← Nat.pow_add,
      Nat.add_assoc]
  have hle : n / 16 ^ k / 16 / 16 ^ j ≤ n / 16 ^ k / 16 := Nat.div_le_self _ _
  omega

theorem hasEarlyTie_iff {m k v : Nat} (hlow : 2 ^ 53 ≤ m) (hhigh : m / 16 < 2 ^ 53)
    (hv : v < 16 ^ k) : HasEarlyTie (m * 16 ^ k + v) ↔ IsTieDown m ∧ v ≠ 0 := by
  have hpos : 0 < 16 ^ k := Nat.pow_pos (by decide)
  have hquot : (m * 16 ^ k + v) / 16 ^ k = m := by
    rw [Nat.mul_comm, Nat.mul_add_div hpos, Nat.div_eq_of_lt hv, Nat.add_zero]
  have hrem : (m * 16 ^ k + v) % 16 ^ k = v := by
    rw [Nat.mul_comm, Nat.mul_add_mod, Nat.mod_eq_of_lt hv]
  constructor
  · rintro ⟨l, hl, hl', htie, hne⟩
    obtain rfl : l = k :=
      Nat.le_antisymm (not_past_twice (by omega) hl) (not_past_twice hl' (by omega))
    rw [hquot] at htie
    rw [hrem] at hne
    exact ⟨htie, hne⟩
  · rintro ⟨htie, hne⟩
    refine ⟨k, ?_⟩
    rw [hquot, hrem]
    exact ⟨hlow, by omega, htie, hne⟩

theorem not_hasEarlyTie {n : Nat} (hn : n / 16 < 2 ^ 53) : ¬ HasEarlyTie n := by
  rintro ⟨k, hk, -, -, hne⟩
  cases k with
  | zero => simp [Nat.mod_one] at hne
  | succ k =>
    have hle : n / 16 ^ (k + 1) ≤ n / 16 := by
      rw [Nat.pow_succ', ← Nat.div_div_eq_div_mul]
      exact Nat.div_le_self _ _
    omega

namespace NumberLiteral

open Magnitude

variable {ds : List Char}

/-- The digits behind the first one that 53 bits do not hold make a difference in one case only. -/
theorem rounded_digits {m k v : Nat} (hm : 2 ^ 53 ≤ m) (hv : v < 16 ^ k) :
    1076 * 2 ^ 52 ≤ roundedCode (m * unitsPerOne) ∧
    ((¬ (IsTieDown m ∧ v ≠ 0) ∧ roundedCode ((m * 16 ^ k + v) * unitsPerOne) =
      roundedCode (m * unitsPerOne) + 4 * k * 2 ^ 52) ∨
    ((IsTieDown m ∧ v ≠ 0) ∧ roundedCode ((m * 16 ^ k + v) * unitsPerOne) =
        roundedCode (m * unitsPerOne) + 4 * k * 2 ^ 52 + 1 ∧
      ((m * 16 ^ k + v) * unitsPerOne < infinity.units ↔
        roundedCode (m * unitsPerOne) + 4 * k * 2 ^ 52 < infinityCode))) := by
  obtain ⟨c, heven, hbelow⟩ := exists_below_code hm
  have hround := hbelow.rounded
  have hdigits := hbelow.rounded_shift hv
  refine ⟨hbelow.le_rounded, ?_⟩
  by_cases htie : IsTieDown m ∧ v ≠ 0
  · have hzero : c % 2 = 0 := heven.trans htie.1.2
    rw [htie.1.1, if_neg (Nat.lt_irrefl _), if_neg (Nat.lt_irrefl _), hzero] at hround
    rw [if_pos ⟨htie.1.1, hzero, htie.2⟩] at hdigits
    refine .inr ⟨htie, hdigits, ?_⟩
    rw [(hbelow.shift hv).lt_infinity_iff, hround, Nat.add_zero]
  · refine .inl ⟨htie, ?_⟩
    rw [hdigits, if_neg, Nat.add_zero]
    rintro ⟨hhalf, hzero, hne⟩
    exact htie ⟨⟨hhalf, heven.symm.trans hzero⟩, hne⟩

/-- What reading digit by digit makes of a number: it is rounded correctly, unless it has an early
tie and is not past the range; then it comes out one code too low. -/
theorem foldHexadecimal_cases (h : ∀ c ∈ ds, isHexDigit c = true) {n : Nat}
    (hn : denoted 16 ds = n) :
    (¬ (HasEarlyTie n ∧ n * unitsPerOne < infinity.units) ∧ foldHexadecimal ds = .ofNat n) ∨
    ((HasEarlyTie n ∧ n * unitsPerOne < infinity.units) ∧
      (Magnitude.ofNat n).code = (foldHexadecimal ds).code + 1) := by
  rcases Nat.lt_or_ge (n / 16) (2 ^ 53) with hlt | hge
  · subst hn
    exact .inl ⟨fun htie => not_hasEarlyTie hlt htie.1, foldHexadecimal_eq_ofNat h hlt⟩
  obtain ⟨head, tail, rfl, hlow, hhigh⟩ := exists_head (by omega) h
  have hhead : ∀ c ∈ head, isHexDigit c = true := fun c hc => h c (by simp [hc])
  have htail : ∀ c ∈ tail, isHexDigit c = true := fun c hc => h c (by simp [hc])
  have hv := denoted_lt htail
  have hcode (u : Nat) : (Magnitude.ofNat u).code =
      min (roundedCode (u * unitsPerOne)) infinityCode := code_ofUnits _
  obtain ⟨hle, hround⟩ := rounded_digits hlow hv
  have hinf : 1076 * 2 ^ 52 ≤ infinityCode := by decide
  have hfold : (foldHexadecimal head).code =
      min (roundedCode (denoted 16 head * unitsPerOne)) infinityCode := by
    rw [foldHexadecimal_eq_ofNat hhead hhigh, hcode]
  have hlarge : 1076 * 2 ^ 52 ≤ (foldHexadecimal head).code := by
    rw [hfold]
    exact Nat.le_min.mpr ⟨hle, hinf⟩
  have hall := code_foldHexadecimal_append head htail hlarge
  have hnumber := hcode (denoted 16 head * 16 ^ tail.length + denoted 16 tail)
  rw [← hn, denoted_append, hasEarlyTie_iff hlow hhigh hv]
  rw [hfold] at hall
  generalize roundedCode (denoted 16 head * unitsPerOne) = r at hround hall
  rw [min_min_add] at hall
  rcases hround with ⟨hnot, hround⟩ | ⟨htie, hround, hrange⟩
  · exact .inl ⟨fun hboth => hnot hboth.1, ext_code (by rw [hnumber, hround, hall])⟩
  · rw [hrange]
    rcases Nat.lt_or_ge (r + 4 * tail.length * 2 ^ 52) infinityCode with hlt | hge
    · refine .inr ⟨⟨htie, hlt⟩, ?_⟩
      rw [hnumber, hround, hall, Nat.min_eq_left hlt, Nat.min_eq_left (Nat.le_of_lt hlt)]
    · refine .inl ⟨fun hboth => Nat.not_lt_of_le hge hboth.2, ext_code ?_⟩
      rw [hnumber, hround, hall, Nat.min_eq_right hge, Nat.min_eq_right (Nat.le_succ_of_le hge)]

/-- The double that a literal stands for. Below `2 ^ 63` it is rounded once. -/
theorem toBinary64_hexadecimal (h : ∀ c ∈ ds, isHexDigit c = true) {n : Nat}
    (hn : denoted 16 ds = n) : ∃ x, (hexadecimal ds).value.toBinary64 = .ofMagnitude x ∧
    (¬ (Nat.pow 2 63 ≤ n ∧ HasEarlyTie n ∧ n * unitsPerOne < infinity.units) ∧ x = .ofNat n ∨
      (Nat.pow 2 63 ≤ n ∧ HasEarlyTie n ∧ n * unitsPerOne < infinity.units) ∧
        (Magnitude.ofNat n).code = x.code + 1) := by
  have hread : readDigits 16 ds = n := (readDigits_eq 16 h).trans hn
  rcases Nat.lt_or_ge n (Nat.pow 2 63) with hlt | hge
  · refine ⟨.ofNat n, ?_, .inl ⟨fun hlarge => Nat.not_lt_of_le hlarge.1 hlt, rfl⟩⟩
    have hsign : ¬ ((n : Int) < 0) := Int.not_lt_of_ge (Int.natCast_nonneg n)
    simp [value, hread, hlt, Numeral.toBinary64, Binary64.ofInt, Binary64.ofMagnitude, hsign]
  · refine ⟨foldHexadecimal ds, ?_, ?_⟩
    · rw [value, hread, if_neg (Nat.not_lt_of_le hge)]
      rfl
    · rcases foldHexadecimal_cases h hn with ⟨hnot, heq⟩ | ⟨hearly, hcode⟩
      · exact .inl ⟨fun hlarge => hnot hlarge.2, heq⟩
      · exact .inr ⟨⟨hge, hearly⟩, hcode⟩

theorem scan_hexadecimal (hne : ds ≠ []) (h : ∀ c ∈ ds, isHexDigit c = true) :
    Piece.scan '0' ('x' :: ds) =
      .lexeme (.number (hexadecimal ds).value) ('0' :: 'x' :: ds) := by
  have hformed : (hexadecimal ds).WellFormed := ⟨hne, h⟩
  have hscan : scan ('0' :: 'x' :: ds) = hexadecimal ds := scan_text hformed
  calc Piece.scan '0' ('x' :: ds)
      = Piece.scanNumber ('0' :: 'x' :: ds) := rfl
    _ = _ := by rw [Piece.scanNumber, hscan]; rfl

/-- A hexadecimal literal is read as the double nearest to its number, unless the number is too large
for an integer, has an early tie, and is not past the range of doubles. In that case the literal is
read as the double before the nearest. -/
theorem hexadecimal_nearest (hne : ds ≠ []) (h : ∀ c ∈ ds, isHexDigit c = true) {n : Nat}
    (hn : denoted 16 ds = n) (log : Log) :
    ∃ x : Magnitude, (hexadecimal ds).value.toBinary64 = .ofMagnitude x ∧
      parseInto log ("x = 0x" ++ String.ofList ds) =
        (.ok (assigned (.number (.ofMagnitude x))), log) ∧
      (x.IsNearest (n * unitsPerOne) ↔
        ¬ (Nat.pow 2 63 ≤ n ∧ HasEarlyTie n ∧ n * unitsPerOne < infinity.units)) ∧
      ∀ y : Magnitude, y.IsNearest (n * unitsPerOne) → y.code = x.code ∨ y.code = x.code + 1 := by
  obtain ⟨x, hx, hcases⟩ := toBinary64_hexadecimal h hn
  have hliteral : Token.literal?
      ⟨.number (hexadecimal ds).value, String.ofList ('0' :: 'x' :: ds), 1⟩ =
        some (.number (.ofMagnitude x)) := by
    rw [← hx]
    rfl
  have hsource : "x = 0x" ++ String.ofList ds = "x = " ++ String.ofList ('0' :: 'x' :: ds) := by
    simp [← String.toList_inj]
  have hnearest (y : Magnitude) : y.IsNearest (n * unitsPerOne) ↔ y = .ofNat n := isNearest_iff
  refine ⟨x, hx, ?_, ?_, fun y hy => ?_⟩
  · rw [hsource, parseInto_assigned (scan_hexadecimal hne h) hliteral]
    rfl
  · rw [hnearest]
    rcases hcases with ⟨hnot, heq⟩ | ⟨hearly, hcode⟩
    · exact iff_of_true heq hnot
    · refine iff_of_false (fun heq => ?_) (not_not_intro hearly)
      rw [heq] at hcode
      omega
  · rw [(hnearest y).mp hy]
    rcases hcases with ⟨-, heq⟩ | ⟨-, hcode⟩
    · exact .inl (congrArg code heq.symm)
    · exact .inr hcode

/-- The digits `80000000000004` are a tie, and `01` is left behind it. -/
theorem hexadecimal_nearest_tie :
    "8000000000000401".toList ≠ [] ∧ (∀ c ∈ "8000000000000401".toList, isHexDigit c = true) ∧
    denoted 16 "8000000000000401".toList = 9223372036854776833 ∧
    ∃ x : Magnitude, (hexadecimal "8000000000000401".toList).value.toBinary64 = .ofMagnitude x ∧
      ¬ x.IsNearest (9223372036854776833 * unitsPerOne) := by
  have hne : "8000000000000401".toList ≠ [] := by decide
  have hdigits : ∀ c ∈ "8000000000000401".toList, isHexDigit c = true :=
    List.all_eq_true.mp (by decide +kernel)
  have hvalue : denoted 16 "8000000000000401".toList = 9223372036854776833 := by decide +kernel
  have htie : HasEarlyTie 9223372036854776833 := ⟨2, by decide, by decide, by decide +kernel, by decide⟩
  obtain ⟨x, hx, -, hnearest, -⟩ := hexadecimal_nearest hne hdigits hvalue .empty
  refine ⟨hne, hdigits, hvalue, x, hx, fun h => hnearest.mp h ⟨by decide, htie, by decide +kernel⟩⟩

/-- The number of `0x8000000000000401` lies nearer to the next double than to the one it is read as. -/
theorem hexadecimal_not_nearest :
    parseInto .empty "x = 0x8000000000000401" =
      (.ok (assigned (.number (.ofMagnitude (.ofNat 9223372036854775808)))), .empty) ∧
    denoted 16 "8000000000000401".toList = 9223372036854776833 ∧
    ¬ (Magnitude.ofNat 9223372036854775808).IsNearest (9223372036854776833 * unitsPerOne) ∧
    (Magnitude.ofNat 9223372036854777856).IsNearest (9223372036854776833 * unitsPerOne) := by
  have hdigits : ∀ c ∈ "8000000000000401".toList, isHexDigit c = true :=
    List.all_eq_true.mp (by decide +kernel)
  refine ⟨?_, by decide +kernel, ?_, ?_⟩
  · have hvalue : (hexadecimal "8000000000000401".toList).value.toBinary64 =
        .ofMagnitude (.ofNat 9223372036854775808) := by decide +kernel
    have hliteral : Token.literal? ⟨.number (hexadecimal "8000000000000401".toList).value,
        String.ofList "0x8000000000000401".toList, 1⟩ =
          some (.number (.ofMagnitude (.ofNat 9223372036854775808))) := by
      rw [← hvalue]
      rfl
    exact parseInto_assigned (scan_hexadecimal (by decide) hdigits) hliteral .empty
  · rw [isNearest_iff]
    decide +kernel
  · rw [isNearest_iff]
    decide +kernel

end NumberLiteral

end LuaSyntax
