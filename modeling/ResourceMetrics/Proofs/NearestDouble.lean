import Mathlib.Algebra.Order.Field.Basic
import Mathlib.Algebra.Order.Field.Power
import Mathlib.Data.Rat.Cast.Order
import Mathlib.Tactic.Linarith
import Mathlib.Tactic.LinearCombination
import Mathlib.Tactic.NormNum
import Mathlib.Tactic.Ring
import ResourceMetrics.ShortestDecimal

/-! Reading numbers as doubles. A number is read as the nearest one of the format, and of two that
are as near as the one with an even mantissa. To the next larger number of the format it is one unit
in the last place, to the next smaller one too, but for a power of two, below which the numbers are
closer. So what is read as a double is what lies within half of these steps, and a number is read as
one double only. -/

namespace ResourceMetrics

namespace BinaryParts

def value (p : BinaryParts) : ℚ := p.mantissa * 2 ^ p.exponent

/-- A magnitude of the format, were its exponents not bounded above. -/
structure Fits (p : BinaryParts) : Prop where
  mantissa : p.mantissa < 2 * Binary64.fractions
  exponent : -1074 ≤ p.exponent

/-- Written with the smallest exponent that the format admits. -/
structure Canonical (p : BinaryParts) : Prop extends Fits p where
  leading : p.exponent = -1074 ∨ Binary64.fractions ≤ p.mantissa

/-- A number is read as a magnitude. One that is nearer to a magnitude above the largest double than
to all doubles is read as none of them. -/
structure Reads (v : ℚ) (p : BinaryParts) : Prop where
  nearest : ∀ q : BinaryParts, q.Fits → |v - p.value| ≤ |v - q.value|
  even : ∀ q : BinaryParts, q.Fits → q.value ≠ p.value → |v - p.value| = |v - q.value| →
    p.mantissa % 2 = 0

/-- The unit in the last place. -/
def unit (p : BinaryParts) : ℚ := 2 ^ p.exponent

/-- The step to the next smaller magnitude. -/
def stepDown (p : BinaryParts) : ℚ :=
  if p.mantissa = Binary64.fractions ∧ -1074 < p.exponent then p.unit / 2 else p.unit

variable {p q : BinaryParts}

theorem unit_pos (p : BinaryParts) : 0 < p.unit := zpow_pos two_pos _

theorem value_eq (p : BinaryParts) : p.value = p.mantissa * p.unit := rfl

theorem stepDown_le (p : BinaryParts) : p.stepDown ≤ p.unit := by
  have hunit := p.unit_pos
  unfold stepDown
  split
  · linarith
  · exact le_refl _

theorem stepDown_pos (p : BinaryParts) : 0 < p.stepDown := by
  have hunit := p.unit_pos
  unfold stepDown
  split
  · linarith
  · exact hunit

/-- With a larger exponent a magnitude is a whole number of units. -/
theorem exists_value_eq (h : p.exponent ≤ q.exponent) :
    ∃ k : ℕ, k = q.mantissa * 2 ^ (q.exponent - p.exponent).toNat ∧ q.value = k * p.unit := by
  refine ⟨_, rfl, ?_⟩
  have hexponent : q.exponent = ((q.exponent - p.exponent).toNat : ℤ) + p.exponent := by omega
  have hunit : q.unit = 2 ^ (q.exponent - p.exponent).toNat * p.unit := by
    rw [unit, unit, hexponent, zpow_add₀ two_ne_zero, zpow_natCast]
    congr 2
    omega
  rw [value_eq, hunit]
  push_cast
  ring

/-- With a smaller exponent it is below the binade of a magnitude that could have one. -/
theorem value_le_of_exponent_lt (hp : p.Canonical) (hq : q.Fits) (h : q.exponent < p.exponent) :
    Binary64.fractions ≤ p.mantissa ∧
      q.value ≤ Binary64.fractions * p.unit - p.unit / 2 := by
  have hleading : Binary64.fractions ≤ p.mantissa := by
    rcases hp.leading with hleast | hleading
    · have hexponent := hq.exponent
      omega
    · exact hleading
  refine ⟨hleading, ?_⟩
  have hhalf : q.unit ≤ p.unit / 2 := by
    have hle : q.exponent ≤ p.exponent - 1 := by omega
    have hstep : (2 : ℚ) ^ (p.exponent - 1) = p.unit / 2 := zpow_sub_one₀ two_ne_zero _
    exact (zpow_le_zpow_right₀ one_le_two hle).trans_eq hstep
  have hmantissa : (q.mantissa : ℚ) ≤ 2 * Binary64.fractions - 1 := by
    have hlt := hq.mantissa
    have hle : q.mantissa + 1 ≤ 2 * Binary64.fractions := hlt
    have hcast : ((q.mantissa + 1 : ℕ) : ℚ) ≤ ((2 * Binary64.fractions : ℕ) : ℚ) :=
      Nat.cast_le.2 hle
    push_cast at hcast
    linarith
  calc q.value = q.mantissa * q.unit := rfl
    _ ≤ q.mantissa * (p.unit / 2) := mul_le_mul_of_nonneg_left hhalf (Nat.cast_nonneg _)
    _ ≤ (2 * Binary64.fractions - 1) * (p.unit / 2) :=
        mul_le_mul_of_nonneg_right hmantissa (half_pos p.unit_pos).le
    _ = Binary64.fractions * p.unit - p.unit / 2 := by ring

theorem add_unit_le (hp : p.Canonical) (hq : q.Fits) (h : p.value < q.value) :
    p.value + p.unit ≤ q.value := by
  have hunit := p.unit_pos
  by_cases hexponent : p.exponent ≤ q.exponent
  · obtain ⟨k, -, hk⟩ := exists_value_eq hexponent
    rw [hk, value_eq] at h ⊢
    have hlt : p.mantissa < k := Nat.cast_lt.1 (lt_of_mul_lt_mul_right h hunit.le)
    have hle : (p.mantissa : ℚ) + 1 ≤ k := by exact_mod_cast hlt
    linarith [mul_le_mul_of_nonneg_right hle hunit.le]
  · obtain ⟨hleading, hle⟩ := value_le_of_exponent_lt hp hq (by omega)
    have hcast : (Binary64.fractions : ℚ) ≤ p.mantissa := Nat.cast_le.2 hleading
    rw [value_eq] at h
    linarith [mul_le_mul_of_nonneg_right hcast hunit.le]

theorem le_sub_stepDown (hp : p.Canonical) (hq : q.Fits) (h : q.value < p.value) :
    q.value ≤ p.value - p.stepDown := by
  have hunit := p.unit_pos
  by_cases hexponent : p.exponent ≤ q.exponent
  · obtain ⟨k, -, hk⟩ := exists_value_eq hexponent
    rw [hk, value_eq] at h
    have hlt : k < p.mantissa := Nat.cast_lt.1 (lt_of_mul_lt_mul_right h hunit.le)
    have hle : (k : ℚ) + 1 ≤ p.mantissa := by exact_mod_cast hlt
    rw [hk, value_eq]
    linarith [mul_le_mul_of_nonneg_right hle hunit.le, p.stepDown_le]
  · obtain ⟨hleading, hle⟩ := value_le_of_exponent_lt hp hq (by omega)
    unfold stepDown
    split
    · rename_i hpower
      rw [value_eq p, hpower.1]
      exact hle
    · rename_i hpower
      -- The mantissa is not the least one, for the exponent is not.
      have hlt : Binary64.fractions < p.mantissa := by
        have hleast := hq.exponent
        omega
      have hcast : (Binary64.fractions : ℚ) + 1 ≤ p.mantissa := by exact_mod_cast hlt
      rw [value_eq p]
      linarith [mul_le_mul_of_nonneg_right hcast hunit.le]

/-- Within half a step of a magnitude. The ends belong to one with an even mantissa. -/
def Near (p : BinaryParts) (v : ℚ) : Prop :=
  if p.mantissa % 2 = 0 then p.value - p.stepDown / 2 ≤ v ∧ v ≤ p.value + p.unit / 2
  else p.value - p.stepDown / 2 < v ∧ v < p.value + p.unit / 2

theorem Near.le {v : ℚ} (h : p.Near v) :
    p.value - p.stepDown / 2 ≤ v ∧ v ≤ p.value + p.unit / 2 := by
  unfold Near at h
  split at h
  · exact h
  · exact ⟨h.1.le, h.2.le⟩

theorem Near.lt {v : ℚ} (h : p.Near v) (hodd : p.mantissa % 2 ≠ 0) :
    p.value - p.stepDown / 2 < v ∧ v < p.value + p.unit / 2 := by
  rwa [Near, if_neg hodd] at h

theorem near_of_lt {v : ℚ} (hlower : p.value - p.stepDown / 2 < v)
    (hupper : v < p.value + p.unit / 2) : p.Near v := by
  unfold Near
  split
  · exact ⟨hlower.le, hupper.le⟩
  · exact ⟨hlower, hupper⟩

/-- Between two numbers that are near there are only such. -/
theorem Near.between {v w x : ℚ} (hv : p.Near v) (hw : p.Near w) (hvx : v ≤ x) (hxw : x ≤ w) :
    p.Near x := by
  unfold Near at *
  split
  · rename_i heven
    rw [if_pos heven] at hv hw
    exact ⟨hv.1.trans hvx, hxw.trans hw.2⟩
  · rename_i hodd
    rw [if_neg hodd] at hv hw
    exact ⟨hv.1.trans_le hvx, hxw.trans_lt hw.2⟩

theorem near_value (p : BinaryParts) : p.Near p.value :=
  near_of_lt (by linarith [p.stepDown_pos]) (by linarith [p.unit_pos])

/-- Of two numbers the smaller one is at least as near exactly to what is not above the middle. -/
theorem abs_sub_le_abs_sub_iff {v a b : ℚ} (h : a < b) : |v - a| ≤ |v - b| ↔ 2 * v ≤ a + b := by
  have hsquares : (v - b) ^ 2 - (v - a) ^ 2 = (b - a) * (a + b - 2 * v) := by ring
  rw [← sq_le_sq, ← sub_nonneg, hsquares, mul_nonneg_iff_of_pos_left (sub_pos.2 h), sub_nonneg]

theorem abs_sub_lt_abs_sub_iff {v a b : ℚ} (h : a < b) : |v - a| < |v - b| ↔ 2 * v < a + b := by
  have hsquares : (v - b) ^ 2 - (v - a) ^ 2 = (b - a) * (a + b - 2 * v) := by ring
  rw [← sq_lt_sq, ← sub_pos, hsquares, mul_pos_iff_of_pos_left (sub_pos.2 h), sub_pos]

/-- What is near a magnitude is not nearer to another one. -/
theorem Near.reads {v : ℚ} (hp : p.Canonical) (h : p.Near v) : Reads v p where
  nearest q hq := by
    obtain ⟨hlower, hupper⟩ := h.le
    rcases lt_trichotomy p.value q.value with hlt | heq | hgt
    · have hstep := add_unit_le hp hq hlt
      rw [abs_sub_le_abs_sub_iff hlt]
      linarith
    · rw [heq]
    · have hstep := le_sub_stepDown hp hq hgt
      rw [← not_lt, abs_sub_lt_abs_sub_iff hgt]
      linarith
  even q hq hne htie := by
    by_contra hodd
    obtain ⟨hlower, hupper⟩ := h.lt hodd
    rcases lt_or_gt_of_ne hne with hgt | hlt
    · have hstep := le_sub_stepDown hp hq hgt
      have hmiddle := (abs_sub_le_abs_sub_iff hgt).1 htie.symm.le
      linarith
    · have hstep := add_unit_le hp hq hlt
      refine absurd htie (ne_of_lt ?_)
      rw [abs_sub_lt_abs_sub_iff hlt]
      linarith

theorem value_succ (p : BinaryParts) :
    (⟨p.mantissa + 1, p.exponent⟩ : BinaryParts).value = p.value + p.unit := by
  simp only [value, unit]
  push_cast
  ring

theorem Canonical.succ (hp : p.Canonical) (hmantissa : p.mantissa + 1 < 2 * Binary64.fractions) :
    Canonical ⟨p.mantissa + 1, p.exponent⟩ where
  mantissa := hmantissa
  exponent := hp.exponent
  leading := hp.leading.imp_right fun hleading => hleading.trans (Nat.le_succ _)

/-- The next larger magnitude, with an exponent that the format admits. -/
theorem exists_above (hp : p.Canonical) : ∃ q : BinaryParts, q.Fits ∧
    q.value = p.value + p.unit := by
  by_cases hlast : p.mantissa + 1 = 2 * Binary64.fractions
  · have hfits : Binary64.fractions < 2 * Binary64.fractions := by decide
    refine ⟨⟨Binary64.fractions, p.exponent + 1⟩, ⟨hfits, ?_⟩, ?_⟩
    · have hexponent := hp.exponent
      dsimp only
      omega
    · have hmantissa : (p.mantissa : ℚ) + 1 = 2 * Binary64.fractions := by exact_mod_cast hlast
      simp only [value, unit, zpow_add_one₀ (two_ne_zero (α := ℚ))]
      linear_combination -(2 : ℚ) ^ p.exponent * hmantissa
  · have hmantissa := hp.mantissa
    exact ⟨⟨p.mantissa + 1, p.exponent⟩, (hp.succ (by omega)).toFits, value_succ p⟩

theorem exists_below (hp : p.Canonical) (hmantissa : 0 < p.mantissa) :
    ∃ q : BinaryParts, q.Fits ∧ q.value = p.value - p.stepDown := by
  by_cases hpower : p.mantissa = Binary64.fractions ∧ -1074 < p.exponent
  · have hfits : 2 * Binary64.fractions - 1 < 2 * Binary64.fractions := by decide
    refine ⟨⟨2 * Binary64.fractions - 1, p.exponent - 1⟩, ⟨hfits, ?_⟩, ?_⟩
    · have hexponent := hpower.2
      dsimp only
      omega
    · rw [stepDown, if_pos hpower, value, value_eq p, hpower.1, unit, zpow_sub_one₀ two_ne_zero,
        Nat.cast_sub (by decide)]
      push_cast
      ring
  · refine ⟨⟨p.mantissa - 1, p.exponent⟩, ⟨?_, hp.exponent⟩, ?_⟩
    · have hsmall := hp.mantissa
      dsimp only
      omega
    · rw [stepDown, if_neg hpower, value, value_eq p, Nat.cast_sub hmantissa, unit]
      push_cast
      ring

/-- What is read as a positive magnitude is near it. -/
theorem Reads.near {v : ℚ} (hp : p.Canonical) (hmantissa : 0 < p.mantissa) (h : Reads v p) :
    p.Near v := by
  have hunit := p.unit_pos
  have hdown := p.stepDown_pos
  obtain ⟨above, habove, hupper⟩ := exists_above hp
  obtain ⟨below, hbelow, hlower⟩ := exists_below hp hmantissa
  have hltabove : p.value < above.value := by linarith
  have hltbelow : below.value < p.value := by linarith
  have hle := h.nearest above habove
  have hge := h.nearest below hbelow
  rw [abs_sub_le_abs_sub_iff hltabove] at hle
  rw [← not_lt, abs_sub_lt_abs_sub_iff hltbelow, not_lt] at hge
  unfold Near
  split
  · exact ⟨by linarith, by linarith⟩
  · rename_i hodd
    refine ⟨lt_of_le_of_ne (by linarith) fun htie => hodd ?_,
      lt_of_le_of_ne (by linarith) fun htie => hodd ?_⟩
    · refine h.even below hbelow hltbelow.ne (le_antisymm (h.nearest below hbelow) ?_)
      rw [abs_sub_le_abs_sub_iff hltbelow]
      linarith
    · refine h.even above habove hltabove.ne' (le_antisymm (h.nearest above habove) ?_)
      rw [← not_lt, abs_sub_lt_abs_sub_iff hltabove]
      linarith

/-- A magnitude has one canonical form. -/
theorem Canonical.eq_of_value_eq (hp : p.Canonical) (hq : q.Canonical) (h : p.value = q.value) :
    p = q := by
  wlog hexponent : p.exponent ≤ q.exponent generalizing p q
  · exact (this hq hp h.symm (by omega)).symm
  · obtain ⟨k, hk, hvalue⟩ := exists_value_eq hexponent
    have hmantissa : p.mantissa = k := by
      rw [hvalue, value_eq] at h
      exact_mod_cast mul_right_cancel₀ p.unit_pos.ne' h
    rcases hexponent.eq_or_lt with heq | hlt
    · have hsame : p.mantissa = q.mantissa := by
        rw [hmantissa, hk, heq]
        simp
      cases p
      cases q
      simp_all
    · -- A mantissa that could be halved is too large for the smaller exponent.
      have hleading : Binary64.fractions ≤ q.mantissa := by
        rcases hq.leading with hleast | hleading
        · have hleast' := hp.exponent
          omega
        · exact hleading
      have hpower : 2 ≤ 2 ^ (q.exponent - p.exponent).toNat :=
        Nat.le_self_pow (by omega) 2
      have htwice : 2 * Binary64.fractions ≤ p.mantissa := by
        rw [hmantissa, hk, Nat.mul_comm]
        exact Nat.mul_le_mul hleading hpower
      have hsmall := hp.mantissa
      omega

theorem Reads.not_lt {v : ℚ} (hp : p.Canonical) (hq : q.Canonical) (h : Reads v p)
    (h' : Reads v q) : ¬p.value < q.value := by
  intro hlt
  have htie : |v - p.value| = |v - q.value| :=
    le_antisymm (h.nearest q hq.toFits) (h'.nearest p hp.toFits)
  have hpeven := h.even q hq.toFits hlt.ne' htie
  have hqeven := h'.even p hp.toFits hlt.ne htie.symm
  have hmiddle : p.value + q.value ≤ 2 * v :=
    le_of_not_gt fun hless => htie.not_lt ((abs_sub_lt_abs_sub_iff hlt).2 hless)
  -- The next larger magnitude is not nearer, so it is the other one, with an odd mantissa.
  have hstep := add_unit_le hp hq.toFits hlt
  obtain ⟨above, habove, hnext⟩ := exists_above hp
  have hnearest := h.nearest above habove
  rw [abs_sub_le_abs_sub_iff (by linarith [p.unit_pos]), hnext] at hnearest
  have hfits : p.mantissa + 1 < 2 * Binary64.fractions := by
    have hmantissa := hp.mantissa
    simp only [Binary64.fractions] at hmantissa ⊢
    omega
  have heq : (⟨p.mantissa + 1, p.exponent⟩ : BinaryParts) = q := by
    refine (hp.succ hfits).eq_of_value_eq hq ?_
    rw [value_succ]
    linarith
  rw [← heq] at hqeven
  dsimp only at hqeven
  omega

/-- A number is read as one magnitude. -/
theorem Reads.unique {v : ℚ} (hp : p.Canonical) (hq : q.Canonical) (h : Reads v p)
    (h' : Reads v q) : p = q :=
  hp.eq_of_value_eq hq
    (le_antisymm (le_of_not_gt (Reads.not_lt hq hp h' h)) (le_of_not_gt (Reads.not_lt hp hq h h')))

end BinaryParts

namespace Binary64

open BinaryParts

theorem canonical_parts (x : Binary64) : x.parts.Canonical := by
  have hfraction : x.fractionBits < fractions := Nat.mod_lt _ (by decide)
  unfold parts
  split
  · exact ⟨⟨by simp only []; omega, le_refl _⟩, Or.inl rfl⟩
  · refine ⟨⟨?_, ?_⟩, Or.inr (Nat.le_add_right _ _)⟩
    · simp only []
      omega
    · simp only []
      omega

/-- The largest exponent is for what is not finite. -/
theorem exponent_parts_le {x : Binary64} (h : x.isFinite = true) : x.parts.exponent ≤ 971 := by
  have hlimit : x.exponentBits < exponents := Nat.mod_lt _ (by decide)
  have hne : x.exponentBits ≠ exponents - 1 := bne_iff_ne.1 h
  unfold parts
  split
  · dsimp only
    omega
  · simp only [exponents] at hlimit hne
    dsimp only
    omega

/-- A double is told by its sign and its magnitude, if it has one. -/
theorem eq_of_parts_eq {x y : Binary64} (hsign : x.isNegative = y.isNegative)
    (h : x.parts = y.parts) : x = y := by
  have hfraction (z : Binary64) : z.fractionBits < fractions := Nat.mod_lt _ (by decide)
  have hbits : x.exponentBits = y.exponentBits ∧ x.fractionBits = y.fractionBits := by
    have hx := hfraction x
    have hy := hfraction y
    unfold parts at h
    split at h
    · split at h
      · simp only [BinaryParts.mk.injEq, and_true] at h
        omega
      · simp only [BinaryParts.mk.injEq] at h
        omega
    · split at h
      · simp only [BinaryParts.mk.injEq] at h
        omega
      · simp only [BinaryParts.mk.injEq] at h
        omega
  obtain ⟨x⟩ := x
  obtain ⟨y⟩ := y
  simp only [isNegative, decide_eq_decide, UInt64.le_iff_toNat_le] at hsign
  simp only [exponentBits, fractionBits, fractions, exponents] at hbits
  have hx := x.toNat_lt
  have hy := y.toNat_lt
  have hlimit : (0x8000000000000000 : UInt64).toNat = 0x8000000000000000 := rfl
  rw [hlimit] at hsign
  have hnat : x.toNat = y.toNat := by omega
  rw [UInt64.toNat_inj.1 hnat]

end Binary64

end ResourceMetrics
