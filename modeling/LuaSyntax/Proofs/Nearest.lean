import LuaSyntax.Number.Binary64
import Mathlib.Data.Nat.Dist
import Mathlib.Order.Monotone.Basic

/-!
Rounding. Neighbouring codes are one unit in the last place apart, beyond infinity too if the codes
are thought to go on there, so every number of units lies between two neighbours. The magnitude that
it is rounded to is the nearest one, and no other magnitude is.
-/
namespace LuaSyntax.Magnitude

/-- The magnitude that lies nearest to a number of units. If another one lies as near, it is the one
with the even code. -/
structure IsNearest (x : Magnitude) (u : Nat) : Prop where
  nearest (y : Magnitude) : Nat.dist x.units u ≤ Nat.dist y.units u
  even (y : Magnitude) : y ≠ x → Nat.dist x.units u = Nat.dist y.units u → x.code % 2 = 0

def scaleAt (c : Nat) : Nat := c / 2 ^ 52 - 1

/-- How many units the next code is more. -/
def gapAt (c : Nat) : Nat := 2 ^ scaleAt c

/-- The value of any code, as that of a magnitude. -/
def unitsAt (c : Nat) : Nat := (c - scaleAt c * 2 ^ 52) * gapAt c

/-- The code that a number of units is rounded to if there is no infinity. -/
def roundedCode (u : Nat) : Nat :=
  (u.log2 - 52) * 2 ^ 52 + roundHalfEven u (2 ^ (u.log2 - 52))

theorem units_eq (x : Magnitude) : x.units = unitsAt x.code := rfl

theorem ext_code {x y : Magnitude} (h : x.code = y.code) : x = y := by
  cases x
  cases y
  simpa using h

theorem code_ofUnits (u : Nat) : (ofUnits u 1).code = min (roundedCode u) infinityCode := by
  simp [ofUnits, roundedCode]

section

variable {c s q r u : Nat}

theorem gapAt_pos (c : Nat) : 0 < gapAt c := Nat.two_pow_pos _

/-- A code holds a scale and a significand of 53 bits, which has its first bit unless the scale is
the least. -/
theorem exists_place (c : Nat) : ∃ s q, c = s * 2 ^ 52 + q ∧ q < 2 ^ 53 ∧ (2 ^ 52 ≤ q ∨ s = 0) := by
  refine ⟨scaleAt c, c - scaleAt c * 2 ^ 52, ?_⟩
  unfold scaleAt
  omega

theorem scaleAt_place (hq : q < 2 ^ 53) (hs : 2 ^ 52 ≤ q ∨ s = 0) :
    scaleAt (s * 2 ^ 52 + q) = s := by
  unfold scaleAt
  omega

theorem unitsAt_place (hq : q < 2 ^ 53) (hs : 2 ^ 52 ≤ q ∨ s = 0) :
    unitsAt (s * 2 ^ 52 + q) = q * 2 ^ s := by
  rw [unitsAt, gapAt, scaleAt_place hq hs, Nat.add_sub_cancel_left]

theorem unitsAt_succ (c : Nat) : unitsAt (c + 1) = unitsAt c + gapAt c := by
  obtain ⟨s, q, rfl, hq, hs⟩ := exists_place c
  rw [unitsAt_place hq hs, gapAt, scaleAt_place hq hs, ← Nat.succ_mul]
  rcases Nat.lt_or_ge (q + 1) (2 ^ 53) with hlt | hge
  · rw [Nat.add_assoc, unitsAt_place hlt (by omega)]
  · -- the significand is full, so the scale goes up
    have hnext : s * 2 ^ 52 + q + 1 = (s + 1) * 2 ^ 52 + 2 ^ 52 := by omega
    have hfull : q.succ = 2 ^ 52 * 2 := by omega
    rw [hnext, unitsAt_place (by decide) (.inl (Nat.le_refl _)), hfull, Nat.mul_assoc,
      ← Nat.pow_succ']

theorem strictMono_unitsAt : StrictMono unitsAt := strictMono_nat_of_lt_succ fun c => by
  rw [unitsAt_succ]
  exact Nat.lt_add_of_pos_right (gapAt_pos c)

/-- A number of units lies at a code, or behind it and before the next. -/
theorem exists_below (u : Nat) : ∃ c r, u = unitsAt c + r ∧ r < gapAt c := by
  induction u with
  | zero => exact ⟨0, 0, rfl, gapAt_pos 0⟩
  | succ u ih =>
    obtain ⟨c, r, rfl, hr⟩ := ih
    rcases Nat.lt_or_ge (r + 1) (gapAt c) with hlt | hge
    · exact ⟨c, r + 1, rfl, hlt⟩
    · have hgap : r + 1 = gapAt c := by omega
      exact ⟨c + 1, 0, by rw [unitsAt_succ, ← hgap]; rfl, gapAt_pos _⟩

theorem log2_place (hq : q < 2 ^ 53) (hs : 2 ^ 52 ≤ q ∨ s = 0) (hr : r < 2 ^ s) :
    (q * 2 ^ s + r).log2 - 52 = s := by
  have hlt : q * 2 ^ s + r < 2 ^ (53 + s) := by
    calc q * 2 ^ s + r < (q + 1) * 2 ^ s := by rw [Nat.succ_mul]; omega
      _ ≤ 2 ^ 53 * 2 ^ s := Nat.mul_le_mul_right _ hq
      _ = 2 ^ (53 + s) := (Nat.pow_add _ _ _).symm
  rcases hs with hs | rfl
  · have hle : 2 ^ (52 + s) ≤ q * 2 ^ s + r := by
      calc 2 ^ (52 + s) = 2 ^ 52 * 2 ^ s := Nat.pow_add _ _ _
        _ ≤ q * 2 ^ s := Nat.mul_le_mul_right _ hs
        _ ≤ q * 2 ^ s + r := Nat.le_add_right _ _
    have hne : q * 2 ^ s + r ≠ 0 := Nat.ne_of_gt (Nat.lt_of_lt_of_le (Nat.two_pow_pos _) hle)
    have hlow := (Nat.le_log2 hne).mpr hle
    have hhigh := (Nat.log2_lt hne).mpr hlt
    omega
  · rcases Nat.eq_zero_or_pos (q * 2 ^ 0 + r) with hzero | hpos
    · rw [hzero]
      rfl
    · have hhigh := (Nat.log2_lt (Nat.ne_of_gt hpos)).mpr hlt
      omega

/-- Rounding takes the code below or the next, by what is over; of a half it makes an even code. -/
theorem roundedCode_add (hr : r < gapAt c) : roundedCode (unitsAt c + r) =
    if 2 * r < gapAt c then c else if gapAt c < 2 * r then c + 1 else c + c % 2 := by
  obtain ⟨s, q, rfl, hq, hs⟩ := exists_place c
  rw [gapAt, scaleAt_place hq hs] at hr ⊢
  have hpos : 0 < 2 ^ s := Nat.two_pow_pos s
  have hquot : (q * 2 ^ s + r) / 2 ^ s = q := by
    rw [Nat.mul_comm, Nat.mul_add_div hpos, Nat.div_eq_of_lt hr, Nat.add_zero]
  have hrem : (q * 2 ^ s + r) % 2 ^ s = r := by
    rw [Nat.mul_comm, Nat.mul_add_mod, Nat.mod_eq_of_lt hr]
  have heven : (s * 2 ^ 52 + q) % 2 = q % 2 := by omega
  rw [unitsAt_place hq hs, roundedCode, log2_place hq hs hr, roundHalfEven, hquot, hrem, heven]
  split
  · rfl
  · split <;> rw [Nat.add_assoc]

/-- A value is rounded to its own code. -/
theorem roundedCode_unitsAt (c : Nat) : roundedCode (unitsAt c) = c := by
  have hround := roundedCode_add (gapAt_pos c)
  simpa [gapAt_pos c] using hround

theorem le_roundedCode (hr : r < gapAt c) : c ≤ roundedCode (unitsAt c + r) := by
  rw [roundedCode_add hr]
  split
  · exact Nat.le_refl _
  · split <;> omega

theorem roundedCode_le (hr : r < gapAt c) : roundedCode (unitsAt c + r) ≤ c + 1 := by
  rw [roundedCode_add hr]
  split
  · omega
  · split <;> omega

end

theorem units_le_iff {x y : Magnitude} : x.units ≤ y.units ↔ x.code ≤ y.code :=
  strictMono_unitsAt.le_iff_le

theorem units_lt_iff {x y : Magnitude} : x.units < y.units ↔ x.code < y.code :=
  strictMono_unitsAt.lt_iff_lt

/-- A magnitude is at or below a code, or it is at or above the next. -/
theorem units_or (y : Magnitude) (c : Nat) : (y.code ≤ c ∧ y.units ≤ unitsAt c) ∨
    (c + 1 ≤ y.code ∧ unitsAt c + gapAt c ≤ y.units) := by
  rcases Nat.lt_or_ge c y.code with hlt | hge
  · refine .inr ⟨hlt, ?_⟩
    rw [← unitsAt_succ]
    exact strictMono_unitsAt.monotone hlt
  · exact .inl ⟨hge, strictMono_unitsAt.monotone hge⟩

/-- What a magnitude has to be to lie nearest: a neighbour, not more than half the gap away, and the
even one at just half the gap. -/
theorem isNearest_of_neighbour {x : Magnitude} {c r : Nat} (hr : r < gapAt c)
    (hx : x.code = c ∧ 2 * r ≤ gapAt c ∨ x.code = c + 1 ∧ gapAt c ≤ 2 * r)
    (heven : 2 * r = gapAt c → x.code % 2 = 0) : x.IsNearest (unitsAt c + r) := by
  have hunits : x.units = unitsAt x.code := x.units_eq
  have hsucc := unitsAt_succ c
  refine ⟨fun y => ?_, fun y hne hdist => heven ?_⟩
  · have hy := y.units_or c
    unfold Nat.dist
    rcases hx with ⟨hcode, hhalf⟩ | ⟨hcode, hhalf⟩ <;> rw [hcode] at hunits <;> omega
  · have hy := y.units_or c
    have hlt := @units_lt_iff x y
    have hgt := @units_lt_iff y x
    have hcodes : y.code ≠ x.code := fun h => hne (ext_code h)
    unfold Nat.dist at hdist
    rcases hx with ⟨hcode, hhalf⟩ | ⟨hcode, hhalf⟩ <;> rw [hcode] at hunits <;> omega

theorem isNearest_infinity {u : Nat} (hu : unitsAt infinityCode ≤ u) : infinity.IsNearest u := by
  refine ⟨fun y => ?_, fun _ _ _ => by decide⟩
  have hy : y.units ≤ infinity.units := units_le_iff.mpr y.code_le
  have hbelow : infinity.units ≤ u := by
    rw [units_eq]
    exact hu
  unfold Nat.dist
  omega

/-- Rounding finds the nearest magnitude. -/
theorem isNearest_ofUnits (u : Nat) : (ofUnits u 1).IsNearest u := by
  obtain ⟨c, r, rfl, hr⟩ := exists_below u
  rcases Nat.lt_or_ge c infinityCode with hlt | hge
  · have hcode : (ofUnits (unitsAt c + r) 1).code = roundedCode (unitsAt c + r) := by
      rw [code_ofUnits]
      exact Nat.min_eq_left (Nat.le_trans (roundedCode_le hr) hlt)
    rw [roundedCode_add hr] at hcode
    refine isNearest_of_neighbour hr ?_ ?_
    · split at hcode
      · omega
      · split at hcode <;> omega
    · intro hhalf
      rw [if_neg (by omega), if_neg (by omega)] at hcode
      omega
  · have hinfinity : ofUnits (unitsAt c + r) 1 = infinity := by
      refine ext_code ?_
      rw [code_ofUnits]
      exact Nat.min_eq_right (Nat.le_trans hge (le_roundedCode hr))
    rw [hinfinity]
    exact isNearest_infinity (Nat.le_add_right_of_le (strictMono_unitsAt.monotone hge))

/-- Of two magnitudes that are as near there is a third one between them, unless they are neighbours,
and then one code is odd. -/
theorem IsNearest.unique {x y : Magnitude} {u : Nat} (hx : x.IsNearest u) (hy : y.IsNearest u) :
    x = y := by
  by_contra hne
  wlog hlt : x.code < y.code generalizing x y
  · have hcodes : x.code ≠ y.code := fun h => hne (ext_code h)
    exact this hy hx (Ne.symm hne) (by omega)
  have hdist : Nat.dist x.units u = Nat.dist y.units u :=
    Nat.le_antisymm (hx.nearest y) (hy.nearest x)
  have hxeven := hx.even y (Ne.symm hne) hdist
  have hyeven := hy.even x hne hdist.symm
  let z : Magnitude := ⟨x.code + 1, Nat.le_trans hlt y.code_le⟩
  have hxz : x.units < z.units := units_lt_iff.mpr (Nat.lt_succ_self _)
  have hzy : z.units < y.units := units_lt_iff.mpr (show x.code + 1 < y.code by omega)
  have hz := hx.nearest z
  unfold Nat.dist at hdist hz
  omega

theorem isNearest_iff {x : Magnitude} {u : Nat} : x.IsNearest u ↔ x = ofUnits u 1 := by
  refine ⟨fun h => h.unique (isNearest_ofUnits u), ?_⟩
  rintro rfl
  exact isNearest_ofUnits u

/-! What is a value already is not changed by rounding. -/

section

variable {c : Nat}

theorem scaleAt_add (hc : 2 ^ 52 ≤ c) (k : Nat) : scaleAt (c + k * 2 ^ 52) = scaleAt c + k := by
  unfold scaleAt
  omega

theorem gapAt_add (hc : 2 ^ 52 ≤ c) (k : Nat) : gapAt (c + k * 2 ^ 52) = gapAt c * 2 ^ k := by
  rw [gapAt, scaleAt_add hc, Nat.pow_add, gapAt]

theorem unitsAt_add (hc : 2 ^ 52 ≤ c) (k : Nat) :
    unitsAt (c + k * 2 ^ 52) = unitsAt c * 2 ^ k := by
  have hplace : c + k * 2 ^ 52 - (scaleAt c + k) * 2 ^ 52 = c - scaleAt c * 2 ^ 52 := by omega
  rw [unitsAt, gapAt_add hc, scaleAt_add hc, hplace, unitsAt, Nat.mul_assoc]

/-- Whatever fits into 53 bits is a value, with any zeros behind it. -/
theorem exists_unitsAt {n e : Nat} (hn : n < 2 ^ 53) (he : 52 ≤ e) :
    ∃ c, c ≤ (e + 2) * 2 ^ 52 ∧ unitsAt c = n * 2 ^ e := by
  rcases Nat.eq_zero_or_pos n with rfl | hpos
  · exact ⟨0, Nat.zero_le _, by simp [unitsAt]⟩
  have hne : n ≠ 0 := Nat.ne_of_gt hpos
  have hlog : n.log2 < 53 := (Nat.log2_lt hne).mpr hn
  obtain ⟨k, hk⟩ : ∃ k, n.log2 + k = 52 := ⟨52 - n.log2, by omega⟩
  obtain ⟨s, hs⟩ : ∃ s, k + s = e := ⟨e - k, by omega⟩
  have hlow : 2 ^ 52 ≤ n * 2 ^ k := by
    rw [← hk, Nat.pow_add]
    exact Nat.mul_le_mul_right _ (Nat.log2_self_le hne)
  have hhigh : n * 2 ^ k < 2 ^ 53 := by
    have hbits : 2 ^ 53 = 2 ^ (n.log2 + 1) * 2 ^ k := by
      rw [← Nat.pow_add, Nat.add_right_comm, hk]
    rw [hbits]
    exact Nat.mul_lt_mul_of_pos_right Nat.lt_log2_self (Nat.two_pow_pos k)
  refine ⟨s * 2 ^ 52 + n * 2 ^ k, by omega, ?_⟩
  rw [unitsAt_place hhigh (.inl hlow), Nat.mul_assoc, ← Nat.pow_add, hs]

theorem units_ofUnits {c : Nat} (hc : c ≤ infinityCode) :
    (ofUnits (unitsAt c) 1).units = unitsAt c := by
  rw [units_eq, code_ofUnits, roundedCode_unitsAt, Nat.min_eq_left hc]

theorem units_ofUnits_shifted {n e : Nat} (hn : n < 2 ^ 53) (he : 52 ≤ e) (hinf : e ≤ 2045) :
    (ofUnits (n * 2 ^ e) 1).units = n * 2 ^ e := by
  obtain ⟨c, hc, hunits⟩ := exists_unitsAt hn he
  have hbound : (e + 2) * 2 ^ 52 ≤ infinityCode := Nat.mul_le_mul_right _ (by omega)
  rw [← hunits, units_ofUnits (Nat.le_trans hc hbound)]

theorem unitsPerOne_eq : unitsPerOne = 2 ^ unitExponent := by
  unfold unitsPerOne
  -- True of any exponent; with this one the power would be evaluated.
  generalize unitExponent = e
  rfl

theorem unitsPerOne_pos : 0 < unitsPerOne := by
  rw [unitsPerOne_eq]
  exact Nat.two_pow_pos unitExponent

theorem units_ofUnits_ones {n : Nat} (hn : n < 2 ^ 53) (k : Nat) (hk : k ≤ 900) :
    (ofUnits (n * 2 ^ k * unitsPerOne) 1).units = n * 2 ^ k * unitsPerOne := by
  have hlow : 52 ≤ k + unitExponent ∧ k + unitExponent ≤ 2045 := by
    unfold unitExponent
    omega
  rw [unitsPerOne_eq, Nat.mul_assoc, ← Nat.pow_add]
  exact units_ofUnits_shifted hn hlow.1 hlow.2

theorem roundHalfEven_mul (n d : Nat) {k : Nat} (hk : 0 < k) :
    roundHalfEven (n * k) (d * k) = roundHalfEven n d := by
  simp only [roundHalfEven, Nat.mul_div_mul_right _ _ hk, Nat.mul_mod_mul_right, ← Nat.mul_assoc,
    Nat.mul_lt_mul_right hk]

theorem ofUnits_mul (n : Nat) {k : Nat} (hk : 0 < k) : ofUnits (n * k) k = ofUnits n 1 := by
  simp only [ofUnits, Nat.mul_div_cancel _ hk, Nat.div_one, Nat.mul_comm k, Nat.one_mul,
    roundHalfEven_mul _ _ hk]

theorem units_ofNat {n : Nat} (hn : n < 2 ^ 53) : (ofNat n).units = n * unitsPerOne := by
  have hexact := units_ofUnits_ones hn 0 (by decide)
  rwa [Nat.pow_zero, Nat.mul_one] at hexact

theorem ofNat_zero : ofNat 0 = zero := by
  rw [ofNat, Nat.zero_mul]
  decide

end

end LuaSyntax.Magnitude
