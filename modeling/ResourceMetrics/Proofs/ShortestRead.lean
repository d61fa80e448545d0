import Mathlib.Data.Nat.Cast.Order.Field
import ResourceMetrics.Proofs.NearestDouble

/-! The decimal of a double is one of the shortest that read back as it. The numbers that do are
compared as fractions of natural numbers, exactly. On the grid with seventeen digits a step is less
than a unit in the last place, and below a power of two less than half of one, so one of the two
points next to the double is among them, and the search ends there at the latest. A decimal with
fewer digits than the one that is found lies on a coarser grid, or else below the power of ten at
the first digit of the double, which lies on all of them. -/

namespace ResourceMetrics

/-- The number that a decimal stands for. -/
def Decimal.value (d : Decimal) : ℚ := d.digits * 10 ^ d.exponent

/-- Zeros at the end of the digits stand for powers of ten. -/
theorem Decimal.value_shift (n k : Nat) (e : Int) :
    (⟨10 ^ k * n, e⟩ : Decimal).value = (⟨n, e + k⟩ : Decimal).value := by
  have hten : (10 : ℚ) ≠ 0 := by norm_num
  simp only [Decimal.value, Nat.cast_mul, Nat.cast_pow, Nat.cast_ofNat, zpow_add₀ hten,
    zpow_natCast]
  ring

theorem Decimal.value_one (e : Int) : (⟨1, e⟩ : Decimal).value = 10 ^ e := by
  rw [value, Nat.cast_one, one_mul]

theorem Decimal.value_pow (k : Nat) (e : Int) : (⟨10 ^ k, e⟩ : Decimal).value = 10 ^ (e + k) := by
  rw [← Nat.mul_one (10 ^ k), value_shift, value_one]

theorem Decimal.value_mono {n m : Nat} {e : Int} (h : n ≤ m) :
    (⟨n, e⟩ : Decimal).value ≤ (⟨m, e⟩ : Decimal).value :=
  mul_le_mul_of_nonneg_right (Nat.cast_le.2 h) (zpow_pos (by norm_num) e).le

/-- A number is below each power of ten that stands before its digits. -/
theorem Decimal.value_lt {d : Decimal} {k : Nat} {e : Int} (hdigits : d.digits < 10 ^ k)
    (hexponent : d.exponent + k ≤ e) : d.value < 10 ^ e := by
  have hcast : (d.digits : ℚ) < (10 ^ k : Nat) := Nat.cast_lt.2 hdigits
  calc d.value = d.digits * 10 ^ d.exponent := rfl
    _ < (10 ^ k : Nat) * 10 ^ d.exponent :=
        mul_lt_mul_of_pos_right hcast (zpow_pos (by norm_num) _)
    _ = 10 ^ (d.exponent + k) := value_pow k d.exponent
    _ ≤ 10 ^ e := zpow_le_zpow_right₀ (by norm_num) hexponent

/-- Of the decimals that are read as a magnitude none has fewer digits, and none that has as few is
nearer to it. -/
structure BinaryParts.Shortest (p : BinaryParts) (d : Decimal) : Prop where
  reads : p.Reads d.value
  fewest : ∀ {d' : Decimal} {k : Nat}, p.Reads d'.value → d'.digits < 10 ^ k → d.digits < 10 ^ k
  nearest : ∀ {d' : Decimal}, p.Reads d'.value →
    (∀ k, d.digits < 10 ^ k → d'.digits < 10 ^ k) → |p.value - d.value| ≤ |p.value - d'.value|

namespace ShortestDecimal

def Fraction.value (x : Fraction) : ℚ := x.num / x.den

section Fractions

variable {n base : Nat} {exponent : Int} {x y : Fraction}

theorem scaled_den_pos (hbase : 0 < base) : 0 < (scaled n base exponent).den := by
  cases exponent with
  | ofNat e => exact Nat.one_pos
  | negSucc e => exact Nat.pow_pos hbase

theorem value_scaled : (scaled n base exponent).value = n * base ^ exponent := by
  cases exponent with
  | ofNat e => simp [scaled, Fraction.value]
  | negSucc e =>
      rw [zpow_negSucc, ← div_eq_mul_inv]
      simp [scaled, Fraction.value]

theorem Fraction.le_iff (hx : 0 < x.den) (hy : 0 < y.den) :
    x.le y = true ↔ x.value ≤ y.value := by
  have hx' : (0 : ℚ) < x.den := Nat.cast_pos.2 hx
  have hy' : (0 : ℚ) < y.den := Nat.cast_pos.2 hy
  rw [Fraction.le, decide_eq_true_iff, value, value, div_le_div_iff₀ hx' hy']
  exact_mod_cast Iff.rfl

theorem Fraction.lt_iff (hx : 0 < x.den) (hy : 0 < y.den) :
    x.lt y = true ↔ x.value < y.value := by
  have hx' : (0 : ℚ) < x.den := Nat.cast_pos.2 hx
  have hy' : (0 : ℚ) < y.den := Nat.cast_pos.2 hy
  rw [Fraction.lt, decide_eq_true_iff, value, value, div_lt_div_iff₀ hx' hy']
  exact_mod_cast Iff.rfl

end Fractions

variable {p : BinaryParts} {x : Fraction} {d : Decimal} {exponent : Int}

/-- The interval holds what is near the double. -/
theorem contains_interval_iff (hp : 0 < p.mantissa) :
    (interval p).contains d = true ↔ p.Near d.value := by
  have hquarter : (2 : ℚ) ^ (p.exponent - 2) = p.unit / 4 := by
    rw [BinaryParts.unit, zpow_sub₀ two_ne_zero]
    norm_num
  have hlower : (scaled (interval p).lower 2 (interval p).exponent).value =
      p.value - p.stepDown / 2 := by
    rw [value_scaled, Nat.cast_ofNat]
    simp only [interval, hquarter, BinaryParts.stepDown, BinaryParts.value_eq]
    split
    · rw [Nat.cast_sub (by omega)]
      push_cast
      ring
    · rw [Nat.cast_sub (by omega)]
      push_cast
      ring
  have hupper : (scaled (interval p).upper 2 (interval p).exponent).value =
      p.value + p.unit / 2 := by
    rw [value_scaled, Nat.cast_ofNat]
    simp only [interval, hquarter, BinaryParts.value_eq]
    push_cast
    ring
  have hvalue : (scaled d.digits 10 d.exponent).value = d.value := by
    rw [value_scaled, Nat.cast_ofNat, Decimal.value]
  have hdigits : 0 < (scaled d.digits 10 d.exponent).den := scaled_den_pos (by omega)
  have hbounds (n : Nat) : 0 < (scaled n 2 (interval p).exponent).den := scaled_den_pos two_pos
  unfold Interval.contains BinaryParts.Near
  have hclosed : (interval p).closed = decide (p.mantissa % 2 = 0) := rfl
  rw [hclosed]
  by_cases heven : p.mantissa % 2 = 0
  · rw [if_pos (decide_eq_true heven), if_pos heven, Bool.and_eq_true,
      Fraction.le_iff (hbounds _) hdigits, Fraction.le_iff hdigits (hbounds _), hlower, hupper,
      hvalue]
  · rw [if_neg (by simp [heven]), if_neg heven, Bool.and_eq_true,
      Fraction.lt_iff (hbounds _) hdigits, Fraction.lt_iff hdigits (hbounds _), hlower, hupper,
      hvalue]

/-- A power of ten that is not above the fraction is found, if the last one tried is not. -/
theorem zpow_leadingExponent_le (hx : 0 < x.den) (n : Nat) (e : Int)
    (h : (10 : ℚ) ^ (e - n) ≤ x.value) : (10 : ℚ) ^ leadingExponent x n e ≤ x.value := by
  induction n generalizing e with
  | zero => simpa [leadingExponent] using h
  | succ n ih =>
      rw [leadingExponent]
      split
      · rename_i hle
        rw [Fraction.le_iff (scaled_den_pos (by omega)) hx, value_scaled] at hle
        simpa using hle
      · refine ih (e - 1) ?_
        have hexponent : e - 1 - (n : Int) = e - ((n + 1 : Nat) : Int) := by omega
        rwa [hexponent]

/-- And the next power of ten is above the fraction, if that is so for the first one tried. -/
theorem lt_zpow_leadingExponent (hx : 0 < x.den) (n : Nat) (e : Int)
    (h : x.value < (10 : ℚ) ^ (e + 1)) : x.value < (10 : ℚ) ^ (leadingExponent x n e + 1) := by
  induction n generalizing e with
  | zero => exact h
  | succ n ih =>
      rw [leadingExponent]
      split
      · exact h
      · rename_i hle
        rw [Fraction.le_iff (scaled_den_pos (by omega)) hx, value_scaled, Nat.cast_one, one_mul,
          not_le] at hle
        refine ih (e - 1) ?_
        rw [sub_add_cancel]
        exact hle

/-- The number lies from the grid point below it to less than a step above that. -/
theorem floorOn_spec (hx : 0 < x.den) (exponent : Int) :
    (floorOn x exponent).value ≤ x.value ∧
      x.value < (floorOn x exponent).value + 10 ^ exponent := by
  have hstep : (scaled 1 10 exponent).value = 10 ^ exponent := by
    rw [value_scaled, Nat.cast_one, one_mul, Nat.cast_ofNat]
  have hpos : (0 : ℚ) < 10 ^ exponent := zpow_pos (by norm_num) _
  simp only [floorOn, Decimal.value]
  generalize scaled 1 10 exponent = unit at hstep
  have hratio : x.value / 10 ^ exponent =
      ((x.num * unit.den : Nat) : ℚ) / ((x.den * unit.num : Nat) : ℚ) := by
    rw [← hstep, Fraction.value, Fraction.value, div_div_div_eq, Nat.cast_mul, Nat.cast_mul]
  have hnum : 0 < unit.num := by
    rw [Nat.pos_iff_ne_zero]
    intro hzero
    rw [← hstep, Fraction.value, hzero, Nat.cast_zero, zero_div] at hpos
    exact lt_irrefl _ hpos
  have hbelow : ((x.num * unit.den / (x.den * unit.num) : Nat) : ℚ) ≤ x.value / 10 ^ exponent :=
    Nat.cast_div_le.trans_eq hratio.symm
  have habove : x.value / 10 ^ exponent < (x.num * unit.den / (x.den * unit.num) : Nat) + 1 := by
    have hden : 0 < x.den * unit.num := Nat.mul_pos hx hnum
    rw [hratio, div_lt_iff₀ (Nat.cast_pos.2 hden)]
    exact_mod_cast (Nat.lt_mul_div_succ _ hden).trans_eq (Nat.mul_comm _ _)
  rw [le_div_iff₀ hpos] at hbelow
  rw [div_lt_iff₀ hpos] at habove
  exact ⟨hbelow, by linarith⟩

/-- The double as a fraction. -/
def fraction (p : BinaryParts) : Fraction := scaled p.mantissa 2 p.exponent

theorem fraction_den_pos (p : BinaryParts) : 0 < (fraction p).den := scaled_den_pos two_pos

theorem value_fraction (p : BinaryParts) : (fraction p).value = p.value := value_scaled

/-- The point of a grid that is next to a double, from below. -/
def below (p : BinaryParts) (exponent : Int) : Decimal := floorOn (fraction p) exponent

/-- The next point of the grid. -/
def above (p : BinaryParts) (exponent : Int) : Decimal := ⟨(below p exponent).digits + 1, exponent⟩

theorem value_above (p : BinaryParts) (exponent : Int) :
    (above p exponent).value = (below p exponent).value + 10 ^ exponent := by
  simp only [Decimal.value, above, below, floorOn]
  push_cast
  ring

theorem value_below_le (p : BinaryParts) (exponent : Int) : (below p exponent).value ≤ p.value := by
  rw [← value_fraction]
  exact (floorOn_spec (fraction_den_pos p) exponent).1

theorem lt_value_above (p : BinaryParts) (exponent : Int) : p.value < (above p exponent).value := by
  rw [← value_fraction, value_above]
  exact (floorOn_spec (fraction_den_pos p) exponent).2

/-- Whether the point above is nearer is told by the middle between the two. -/
theorem middle_of_upperIsNearer (p : BinaryParts) (exponent : Int) :
    (upperIsNearer (fraction p) (below p exponent) = true →
        (below p exponent).value + (above p exponent).value ≤ 2 * p.value) ∧
      (upperIsNearer (fraction p) (below p exponent) = false →
        2 * p.value ≤ (below p exponent).value + (above p exponent).value) := by
  have hmiddle : (scaled (2 * (below p exponent).digits + 1) 10 exponent).value =
      (below p exponent).value + (above p exponent).value := by
    rw [value_scaled, Decimal.value, Decimal.value]
    simp only [above, below, floorOn]
    push_cast
    ring
  have htwice : (⟨2 * (fraction p).num, (fraction p).den⟩ : Fraction).value = 2 * p.value := by
    rw [← value_fraction, Fraction.value, Fraction.value, Nat.cast_mul, Nat.cast_ofNat,
      mul_div_assoc]
  have hden : 0 < (scaled (2 * (below p exponent).digits + 1) 10 exponent).den :=
    scaled_den_pos (by omega)
  have hlt := Fraction.lt_iff (y := ⟨2 * (fraction p).num, _⟩) hden (fraction_den_pos p)
  have hle := Fraction.le_iff (y := ⟨2 * (fraction p).num, _⟩) hden (fraction_den_pos p)
  rw [hmiddle, htwice] at hlt hle
  have hgrid : (below p exponent).exponent = exponent := rfl
  simp only [upperIsNearer, hgrid, Bool.or_eq_true, Bool.and_eq_true, Bool.or_eq_false_iff]
  constructor
  · rintro (h | ⟨h, -⟩)
    · exact (hlt.1 h).le
    · exact hle.1 h
  · rintro ⟨h, -⟩
    rw [Bool.eq_false_iff, ne_eq, hlt, not_lt] at h
    exact h

section Grid

variable (hmantissa : 0 < p.mantissa)

include hmantissa

/-- The point below or the point above is found; if both are near, the nearer one. -/
theorem onGrid?_cases (h : onGrid? (interval p) (fraction p) exponent = some d) :
    p.Near d.value ∧
      ((d = below p exponent ∧ (p.Near (above p exponent).value →
          2 * p.value ≤ (below p exponent).value + (above p exponent).value)) ∨
        d = above p exponent ∧ (p.Near (below p exponent).value →
          (below p exponent).value + (above p exponent).value ≤ 2 * p.value)) := by
  obtain ⟨hupper, hlower⟩ := middle_of_upperIsNearer p exponent
  have hbelow := contains_interval_iff (d := below p exponent) hmantissa
  have habove := contains_interval_iff (d := above p exponent) hmantissa
  rw [← hbelow, ← habove, ← contains_interval_iff hmantissa]
  unfold onGrid? at h
  dsimp only at h
  split at h
  · rename_i hlow hhigh
    split at h
    · rename_i hnearer
      obtain rfl := Option.some.inj h
      exact ⟨hhigh, Or.inr ⟨rfl, fun _ => hupper hnearer⟩⟩
    · rename_i hnearer
      obtain rfl := Option.some.inj h
      exact ⟨hlow, Or.inl ⟨rfl, fun _ => hlower (Bool.eq_false_iff.2 hnearer)⟩⟩
  · rename_i hlow hhigh
    obtain rfl := Option.some.inj h
    exact ⟨hlow, Or.inl ⟨rfl, fun hnot => absurd (hhigh.symm.trans hnot) Bool.false_ne_true⟩⟩
  · rename_i hlow hhigh
    obtain rfl := Option.some.inj h
    exact ⟨hhigh, Or.inr ⟨rfl, fun hnot => absurd (hlow.symm.trans hnot) Bool.false_ne_true⟩⟩
  · cases h

theorem isSome_onGrid? (h : p.Near (below p exponent).value ∨ p.Near (above p exponent).value) :
    (onGrid? (interval p) (fraction p) exponent).isSome = true := by
  rw [← contains_interval_iff hmantissa, ← contains_interval_iff hmantissa] at h
  unfold onGrid?
  dsimp only
  split
  · rfl
  · rfl
  · rfl
  · rename_i hlow hhigh
    rcases h with h | h
    · exact absurd (hlow.symm.trans h) Bool.false_ne_true
    · exact absurd (hhigh.symm.trans h) Bool.false_ne_true

/-- If a point of a grid is near, then so is one of the two next to the double. -/
theorem isSome_onGrid?_of_near {n : Nat} (h : p.Near (⟨n, exponent⟩ : Decimal).value) :
    (onGrid? (interval p) (fraction p) exponent).isSome = true := by
  apply isSome_onGrid? hmantissa
  by_cases hn : n ≤ (below p exponent).digits
  · exact Or.inl (h.between p.near_value (Decimal.value_mono hn) (value_below_le p exponent))
  · exact Or.inr (p.near_value.between h (lt_value_above p exponent).le
      (Decimal.value_mono (Nat.lt_of_not_le hn)))

/-- Of the points of its grid that are near it is the nearest one. -/
theorem nearest_onGrid (h : onGrid? (interval p) (fraction p) exponent = some d) {n : Nat}
    (hn : p.Near (⟨n, exponent⟩ : Decimal).value) :
    |p.value - d.value| ≤ |p.value - (⟨n, exponent⟩ : Decimal).value| := by
  have hbelow := value_below_le p exponent
  have habove := lt_value_above p exponent
  obtain ⟨-, hcases⟩ := onGrid?_cases hmantissa h
  by_cases hside : n ≤ (below p exponent).digits
  · have hle : (⟨n, exponent⟩ : Decimal).value ≤ (below p exponent).value :=
      Decimal.value_mono hside
    refine le_trans ?_ (le_abs_self (p.value - (⟨n, exponent⟩ : Decimal).value))
    rcases hcases with ⟨rfl, -⟩ | ⟨rfl, hmiddle⟩
    · rw [abs_of_nonneg (by linarith)]
      linarith
    · have hmiddle := hmiddle (hn.between p.near_value hle hbelow)
      rw [abs_of_nonpos (by linarith)]
      linarith
  · have hle : (above p exponent).value ≤ (⟨n, exponent⟩ : Decimal).value :=
      Decimal.value_mono (Nat.lt_of_not_le hside)
    refine le_trans ?_ (neg_le_abs (p.value - (⟨n, exponent⟩ : Decimal).value))
    rcases hcases with ⟨rfl, hmiddle⟩ | ⟨rfl, -⟩
    · have hmiddle := hmiddle (p.near_value.between hn habove.le hle)
      rw [abs_of_nonneg (by linarith)]
      linarith
    · rw [abs_of_nonpos (by linarith)]
      linarith

end Grid

/-- The step of a grid with seventeen digits is small enough for one of two points to be near. -/
theorem near_of_fine (hp : p.Canonical) (hfine : 10 ^ exponent * 10 ^ 16 ≤ p.value) :
    p.Near (below p exponent).value ∨ p.Near (above p exponent).value := by
  have hbelow := value_below_le p exponent
  have habove := lt_value_above p exponent
  have hunit := p.unit_pos
  have hdown := p.stepDown_pos
  have hstep : (0 : ℚ) < 10 ^ exponent := zpow_pos (by norm_num) _
  rw [value_above] at habove ⊢
  generalize (below p exponent).value = low at *
  by_cases hpower : p.mantissa = Binary64.fractions ∧ -1074 < p.exponent
  · -- Below a power of two there is less room, but the grid is finer than half a unit.
    refine Or.inr (BinaryParts.near_of_lt (by linarith) ?_)
    rw [BinaryParts.value_eq, hpower.1] at hfine
    simp only [Binary64.fractions] at hfine
    norm_num at hfine
    linarith
  · have hdown : p.stepDown = p.unit := by rw [BinaryParts.stepDown, if_neg hpower]
    have hmantissa : (p.mantissa : ℚ) + 1 ≤ 2 * Binary64.fractions := by
      exact_mod_cast hp.mantissa
    have hbound := mul_le_mul_of_nonneg_right hmantissa hunit.le
    rw [BinaryParts.value_eq] at hfine
    simp only [Binary64.fractions] at hbound
    norm_num at hbound hfine
    by_cases hnear : p.value - p.stepDown / 2 < low
    · exact Or.inl (BinaryParts.near_of_lt hnear (by linarith))
    · refine Or.inr (BinaryParts.near_of_lt (by linarith) ?_)
      linarith

/-- The search ends at the first grid that has a point in the interval. -/
theorem search_spec {i : Interval} {n : Nat} (h : ∃ j < n, (onGrid? i x (exponent - j)).isSome) :
    ∃ j < n, onGrid? i x (exponent - j) = some (search i x n exponent) ∧
      ∀ j' < j, onGrid? i x (exponent - j') = none := by
  induction n generalizing exponent with
  | zero =>
      obtain ⟨j, hj, -⟩ := h
      exact absurd hj (Nat.not_lt_zero j)
  | succ n ih =>
      rw [search]
      cases hgrid : onGrid? i x exponent with
      | some d =>
          refine ⟨0, Nat.succ_pos n, ?_, ?_⟩
          · simpa using hgrid
          · exact fun j' hj' => absurd hj' (Nat.not_lt_zero j')
      | none =>
          have hshift (j : Nat) : exponent - 1 - (j : Int) = exponent - ((j + 1 : Nat) : Int) := by
            omega
          have hnext : ∃ j < n, (onGrid? i x (exponent - 1 - j)).isSome := by
            obtain ⟨j, hj, hsome⟩ := h
            cases j with
            | zero => simp [hgrid] at hsome
            | succ j => exact ⟨j, Nat.lt_of_succ_lt_succ hj, by rwa [hshift]⟩
          obtain ⟨j, hj, hfound, hfirst⟩ := ih hnext
          refine ⟨j + 1, Nat.succ_lt_succ hj, ?_, ?_⟩
          · rw [← hshift]
            exact hfound
          · intro j' hj'
            cases j' with
            | zero => simpa using hgrid
            | succ j' =>
                rw [← hshift]
                exact hfirst j' (Nat.lt_of_succ_lt_succ hj')

theorem value_normalize (n : Nat) (d : Decimal) : (normalize n d).value = d.value := by
  induction n generalizing d with
  | zero => rfl
  | succ n ih =>
      rw [normalize]
      split
      · rename_i hzero
        have hdigits : d.digits = 10 ^ 1 * (d.digits / 10) := by
          simp only [Bool.and_eq_true, decide_eq_true_eq] at hzero
          omega
        rw [ih]
        have hvalue := Decimal.value_shift (d.digits / 10) 1 d.exponent
        rw [← hdigits] at hvalue
        exact hvalue.symm
      · rfl

theorem digits_normalize_le (n : Nat) (d : Decimal) : (normalize n d).digits ≤ d.digits := by
  induction n generalizing d with
  | zero => exact le_refl _
  | succ n ih =>
      rw [normalize]
      split
      · exact (ih _).trans (Nat.div_le_self _ _)
      · exact le_refl _

/-- The exponent of the first digit of a double. -/
def leading (p : BinaryParts) : Int := leadingExponent (fraction p) 640 309

theorem zpow_leading_le (hp : p.Canonical) (hmantissa : 0 < p.mantissa) :
    (10 : ℚ) ^ leading p ≤ p.value := by
  rw [← value_fraction]
  refine zpow_leadingExponent_le (fraction_den_pos p) 640 309 ?_
  have hunit : (2 : ℚ) ^ (-1074 : Int) ≤ p.unit := zpow_le_zpow_right₀ one_le_two hp.exponent
  have hone : (1 : ℚ) ≤ p.mantissa := Nat.one_le_cast.2 hmantissa
  have hleast : (10 : ℚ) ^ ((309 : Int) - (640 : Nat)) ≤ 2 ^ (-1074 : Int) := by
    have hpowers : 2 ^ 1074 ≤ 10 ^ 331 := by decide +kernel
    have hcast : (2 : ℚ) ^ 1074 ≤ 10 ^ 331 := by exact_mod_cast hpowers
    exact inv_anti₀ (pow_pos two_pos 1074) hcast
  have hproduct := mul_le_mul_of_nonneg_right hone p.unit_pos.le
  rw [value_fraction, BinaryParts.value_eq]
  linarith

/-- No finite double has more than 309 digits before the point. -/
theorem lt_zpow_leading (hp : p.Canonical) (hlargest : p.exponent ≤ 971) :
    p.value < (10 : ℚ) ^ (leading p + 1) := by
  rw [← value_fraction]
  refine lt_zpow_leadingExponent (fraction_den_pos p) 640 309 ?_
  have hunit : p.unit ≤ ((2 ^ 971 : Nat) : ℚ) := by
    rw [Nat.cast_pow, Nat.cast_ofNat, ← zpow_natCast]
    exact zpow_le_zpow_right₀ one_le_two hlargest
  have hmantissa : (p.mantissa : ℚ) ≤ (2 * Binary64.fractions : Nat) :=
    Nat.cast_le.2 hp.mantissa.le
  have hpowers : 2 * Binary64.fractions * 2 ^ 971 < 10 ^ 310 := by decide +kernel
  have hlimit : (10 : ℚ) ^ ((309 : Int) + 1) = ((10 ^ 310 : Nat) : ℚ) := by
    rw [Nat.cast_pow, Nat.cast_ofNat, ← zpow_natCast]
    rfl
  rw [value_fraction, BinaryParts.value_eq, hlimit]
  refine lt_of_le_of_lt (mul_le_mul hmantissa hunit p.unit_pos.le (Nat.cast_nonneg _)) ?_
  rw [← Nat.cast_mul]
  exact Nat.cast_lt.2 hpowers

/-- A decimal is found on a grid, and no coarser one has a point in the interval. -/
structure FoundOn (p : BinaryParts) (j : Nat) (d : Decimal) : Prop where
  found : onGrid? (interval p) (fraction p) (leading p - j) = some d
  first : ∀ j' < j, onGrid? (interval p) (fraction p) (leading p - j') = none

theorem exists_foundOn (hp : p.Canonical) (hmantissa : 0 < p.mantissa) :
    ∃ j d, FoundOn p j d ∧ ofParts p = normalize 20 d := by
  have hfine : (10 : ℚ) ^ (leading p - (16 : Nat)) * 10 ^ 16 ≤ p.value := by
    have hten : (10 : ℚ) ≠ 0 := by norm_num
    rw [zpow_sub₀ hten, zpow_natCast, div_mul_cancel₀ _ (pow_ne_zero 16 hten)]
    exact zpow_leading_le hp hmantissa
  have hsome : (onGrid? (interval p) (fraction p) (leading p - (16 : Nat))).isSome :=
    isSome_onGrid? hmantissa (near_of_fine hp hfine)
  obtain ⟨j, -, hfound, hfirst⟩ := search_spec (n := 17) ⟨16, by omega, hsome⟩
  exact ⟨j, _, ⟨hfound, hfirst⟩, rfl⟩

section Found

variable {j : Nat} {r : Decimal} (hmantissa : 0 < p.mantissa)

include hmantissa

theorem near_pos {v : ℚ} (h : p.Near v) : 0 < v := by
  have hunit := p.unit_pos
  have hdown := p.stepDown_le
  have hlower := h.le.1
  have hone : (1 : ℚ) ≤ p.mantissa := Nat.one_le_cast.2 hmantissa
  have hproduct := mul_le_mul_of_nonneg_right hone hunit.le
  rw [BinaryParts.value_eq] at hlower
  linarith

theorem FoundOn.near (h : FoundOn p j r) : p.Near r.value := (onGrid?_cases hmantissa h.found).1

/-- No point of a coarser grid than the one that it is found on is near. -/
theorem FoundOn.not_near (h : FoundOn p (j + 1) r) (hexponent : leading p - j ≤ d.exponent) :
    ¬p.Near d.value := by
  intro hnear
  obtain ⟨digits, exponent⟩ := d
  have hshift : exponent = leading p - j + (exponent - (leading p - j)).toNat := by
    dsimp only at hexponent
    omega
  rw [hshift, ← Decimal.value_shift] at hnear
  have hsome := isSome_onGrid?_of_near hmantissa hnear
  rw [h.first j (Nat.lt_succ_self j)] at hsome
  cases hsome

/-- What is near has more digits than the coarser grids. -/
theorem FoundOn.lt_of_near (h : FoundOn p j r) (hp : p.Canonical) {k : Nat}
    (hnear : p.Near d.value) (hdigits : d.digits < 10 ^ k) : j < k := by
  cases j with
  | zero =>
      rw [Nat.pos_iff_ne_zero]
      rintro rfl
      have hzero : d.digits = 0 := by omega
      have hpos := near_pos hmantissa hnear
      rw [Decimal.value, hzero, Nat.cast_zero, zero_mul] at hpos
      exact lt_irrefl _ hpos
  | succ j =>
      by_contra hk
      by_cases hexponent : leading p - j ≤ d.exponent
      · exact h.not_near hmantissa hexponent hnear
      · -- Then the power of ten at the first digit is near, which is on every coarser grid.
        have hlt : d.value < 10 ^ leading p := Decimal.value_lt hdigits (by omega)
        have hpower : p.Near (⟨1, leading p⟩ : Decimal).value := by
          rw [Decimal.value_one]
          exact hnear.between p.near_value hlt.le (zpow_leading_le hp hmantissa)
        exact h.not_near hmantissa (by dsimp only; omega) hpower

/-- It has at most one digit more than there are coarser grids, or is a power of ten. -/
theorem FoundOn.digits_le (h : FoundOn p j r) (hlargest : p.value < 10 ^ (leading p + 1)) :
    r.digits ≤ 10 ^ (j + 1) ∧ r.exponent = leading p - j := by
  have hlow : (below p (leading p - j)).digits < 10 ^ (j + 1) := by
    have hexponent : leading p - j + (j + 1 : Nat) = leading p + 1 := by omega
    by_contra hge
    have hpower := Decimal.value_mono (e := leading p - j) (Nat.le_of_not_lt hge)
    rw [Decimal.value_pow, hexponent] at hpower
    exact absurd (hpower.trans (value_below_le p (leading p - j))) (not_le.2 hlargest)
  rcases (onGrid?_cases hmantissa h.found).2 with ⟨rfl, -⟩ | ⟨rfl, -⟩
  · exact ⟨hlow.le, rfl⟩
  · exact ⟨hlow, rfl⟩

/-- Without the zeros at its end it has no more digits than that. -/
theorem FoundOn.digits_lt (h : FoundOn p j r) (hlargest : p.value < 10 ^ (leading p + 1)) :
    (normalize 20 r).digits < 10 ^ (j + 1) := by
  have hle := h.digits_le hmantissa hlargest
  rcases hle.1.lt_or_eq with hlt | heq
  · exact (digits_normalize_le 20 _).trans_lt hlt
  · have hr : r = ⟨10 ^ (j + 1), leading p - j⟩ := by rw [← heq, ← hle.2]
    cases j with
    | zero =>
        rw [hr]
        simp [normalize]
    | succ j =>
        -- The power of ten would have been found on the grid before.
        have hnear := h.near hmantissa
        rw [hr, Decimal.value_pow, ← Decimal.value_one] at hnear
        exact absurd hnear (h.not_near hmantissa (by dsimp only; omega))

end Found

section OfParts

variable (hp : p.Canonical) (hmantissa : 0 < p.mantissa)

include hp hmantissa

/-- The decimal of a double is near it. -/
theorem near_ofParts : p.Near (ofParts p).value := by
  obtain ⟨j, r, h, hr⟩ := exists_foundOn hp hmantissa
  rw [hr, value_normalize]
  exact h.near hmantissa

/-- No decimal that is near the double has fewer digits. -/
theorem digits_ofParts_lt (hlargest : p.exponent ≤ 971) {k : Nat} (hnear : p.Near d.value)
    (hdigits : d.digits < 10 ^ k) : (ofParts p).digits < 10 ^ k := by
  obtain ⟨j, r, h, hr⟩ := exists_foundOn hp hmantissa
  rw [hr]
  exact (h.digits_lt hmantissa (lt_zpow_leading hp hlargest)).trans_le
    (Nat.pow_le_pow_right (by omega) (h.lt_of_near hmantissa hp hnear hdigits))

/-- None with as few digits is nearer. -/
theorem ofParts_nearest (hlargest : p.exponent ≤ 971) (hnear : p.Near d.value)
    (hfew : ∀ k, (ofParts p).digits < 10 ^ k → d.digits < 10 ^ k) :
    |p.value - (ofParts p).value| ≤ |p.value - d.value| := by
  obtain ⟨j, r, h, hr⟩ := exists_foundOn hp hmantissa
  have hdigits := hfew (j + 1) (hr ▸ h.digits_lt hmantissa (lt_zpow_leading hp hlargest))
  rw [hr, value_normalize]
  by_cases hexponent : leading p - j ≤ d.exponent
  · -- It lies on the same grid.
    obtain ⟨digits, exponent⟩ := d
    have hshift : exponent = leading p - j + (exponent - (leading p - j)).toNat := by
      dsimp only at hexponent
      omega
    rw [hshift, ← Decimal.value_shift] at hnear ⊢
    exact nearest_onGrid hmantissa h.found hnear
  · -- It lies below the power of ten at the first digit, which is on the grid.
    have hlt : d.value < 10 ^ leading p := Decimal.value_lt hdigits (by omega)
    have hle := zpow_leading_le hp hmantissa
    have hpower : (⟨10 ^ j, leading p - j⟩ : Decimal).value = 10 ^ leading p := by
      rw [Decimal.value_pow, sub_add_cancel]
    have hbetween := hnear.between p.near_value hlt.le hle
    rw [← hpower] at hbetween
    refine (nearest_onGrid hmantissa h.found hbetween).trans ?_
    rw [hpower, abs_of_nonneg (by linarith), abs_of_nonneg (by linarith)]
    linarith

theorem shortest_ofParts (hlargest : p.exponent ≤ 971) : p.Shortest (ofParts p) where
  reads := (near_ofParts hp hmantissa).reads hp
  fewest hread := digits_ofParts_lt hp hmantissa hlargest (hread.near hp hmantissa)
  nearest hread := ofParts_nearest hp hmantissa hlargest (hread.near hp hmantissa)

end OfParts

theorem shortest_zero (hp : p.Canonical) (hmantissa : p.mantissa = 0) (e : Int) :
    p.Shortest ⟨0, e⟩ := by
  have hvalue : (⟨0, e⟩ : Decimal).value = p.value := by
    rw [Decimal.value, BinaryParts.value, hmantissa, Nat.cast_zero, zero_mul, zero_mul]
  refine ⟨?_, fun _ _ => Nat.pow_pos (by omega), fun _ _ => ?_⟩
  · rw [hvalue]
    exact p.near_value.reads hp
  · rw [hvalue, sub_self, abs_zero]
    exact abs_nonneg _

end ShortestDecimal

end ResourceMetrics
