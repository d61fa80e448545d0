import Mathlib
import ResourceMetrics.ShortestDecimal

/-! Signs and zeros in double precision. Sums and quotients of numbers without a minus sign have
none either, as long as they are numbers, so no load is the number that is reported where there is
none. No positive number rounds to zero, so zero divided by it is zero. -/

namespace ResourceMetrics

open Float.Model Float.Model.UnpackedFloat

namespace Binary64

/-- Not a number, or one without a minus sign. -/
inductive Plus : UnpackedFloat → Prop
  | notANumber : Plus .notANumber
  | infinity : Plus (.infinity .positive)
  | zero : Plus (.zero .positive)
  | finite {m : Nat} {e : Int} {hm : 0 < m} : Plus (.finite .positive m e hm)

theorem plus_roundWithAccuracy (m : Nat) (e : Int) (accuracy : Accuracy) :
    Plus (roundWithAccuracy .binary64 .positive m e accuracy) := by
  unfold roundWithAccuracy
  dsimp only
  split
  · exact .zero
  · exact .finite

theorem plus_normalize {m : Int} (hm : 0 ≤ m) (e : Int) :
    Plus (UnpackedFloat.normalize .binary64 m e .positive) := by
  unfold UnpackedFloat.normalize
  split
  · rename_i hlt
    exact absurd (Int.compare_eq_lt.1 hlt) (Int.not_lt.2 hm)
  · exact .zero
  · exact plus_roundWithAccuracy _ _ _

theorem Plus.add {x y : UnpackedFloat} (hx : Plus x) (hy : Plus y) :
    Plus (UnpackedFloat.add .binary64 x y) := by
  cases hx with
  | finite =>
      cases hy with
      | finite =>
          refine plus_normalize ?_ _
          exact Int.add_nonneg (Int.natCast_nonneg _) (Int.natCast_nonneg _)
      | _ => constructor
  | _ =>
      cases hy with
      | _ => constructor

theorem Plus.div {x y : UnpackedFloat} (hx : Plus x) (hy : Plus y) :
    Plus (UnpackedFloat.div .binary64 x y) := by
  cases hx with
  | finite =>
      cases hy with
      | finite => exact plus_roundWithAccuracy _ _ _
      | _ => constructor
  | _ =>
      cases hy with
      | _ => constructor

theorem Plus.unpackSign_pack {x : UnpackedFloat} (hx : Plus x) :
    @unpackSign .binary64 (UnpackedFloat.pack .binary64 x) = 0#1 := by
  cases hx with
  | finite =>
      unfold UnpackedFloat.pack
      dsimp only
      split
      · exact unpackSign_packComponents _ _ _
      · split
        · exact unpackSign_packComponents _ _ _
        · exact unpackSign_packComponents _ _ _
  | _ => exact unpackSign_packComponents _ _ _

theorem plus_unpack {b : BitVec 64} (h : @unpackSign .binary64 b = 0#1) :
    Plus (UnpackedFloat.unpack .binary64 b) := by
  have hsign : Sign.ofBitVec (@unpackSign .binary64 b) = .positive := by rw [h]; rfl
  unfold UnpackedFloat.unpack
  dsimp only
  rw [hsign]
  split
  · split
    · exact .infinity
    · exact .notANumber
  · split
    · split
      · exact .zero
      · exact .finite
    · exact .finite

theorem toNat_unpackSign (b : BitVec 64) :
    (@unpackSign .binary64 b).toNat = b.toNat / 2 ^ 63 := by
  have hb := b.isLt
  simp [unpackSign_def, Nat.shiftRight_eq_div_pow]
  omega

theorem toNat_unpackExponent (b : BitVec 64) :
    (@unpackExponent .binary64 b).toNat = b.toNat / 2 ^ 52 % 2 ^ 11 := by
  simp [unpackExponent_def, Nat.shiftRight_eq_div_pow]

theorem toNat_unpackMantissa (b : BitVec 64) :
    (@unpackMantissa .binary64 b).toNat = b.toNat % 2 ^ 52 := by
  simp [unpackMantissa_def]

theorem isNegative_eq_false_iff {x : Binary64} :
    x.isNegative = false ↔ @unpackSign .binary64 x.bits.toBitVec = 0#1 := by
  have hx := x.bits.toBitVec.isLt
  rw [← BitVec.toNat_inj, toNat_unpackSign, isNegative, decide_eq_false_iff_not, UInt64.not_le,
    UInt64.lt_iff_toNat_lt]
  change x.bits.toBitVec.toNat < 2 ^ 63 ↔ _
  simp only [BitVec.toNat_ofNat]
  omega

theorem isNaN_iff {x : Binary64} : x.isNaN = true ↔
    @unpackExponent .binary64 x.bits.toBitVec = -1#_ ∧
      @unpackMantissa .binary64 x.bits.toBitVec ≠ 0#_ := by
  have hx := x.bits.toBitVec.isLt
  have hmask : (x.bits &&& 0x7FFFFFFFFFFFFFFF).toNat = x.bits.toBitVec.toNat % 2 ^ 63 := by
    rw [UInt64.toNat_and]
    exact Nat.and_two_pow_sub_one_eq_mod _ 63
  rw [← BitVec.toNat_inj, ne_eq, ← BitVec.toNat_inj, toNat_unpackExponent, toNat_unpackMantissa,
    isNaN, decide_eq_true_iff, UInt64.lt_iff_toNat_lt, hmask]
  change 0x7FF0000000000000 < _ ↔ _ = 2 ^ 11 - 1 ∧ _
  simp only [BitVec.toNat_ofNat]
  omega

/-- A number of at least one, as rounding leaves it, or more than all of them. -/
inductive AtLeastOne : UnpackedFloat → Prop
  | infinity : AtLeastOne (.infinity .positive)
  | finite {m : Nat} {e : Int} {hm : 0 < m} :
      m.log2 = 52 → -52 ≤ e → AtLeastOne (.finite .positive m e hm)

theorem AtLeastOne.plus {x : UnpackedFloat} (hx : AtLeastOne x) : Plus x := by
  cases hx with
  | infinity => exact .infinity
  | finite => exact .finite

/-- The leading bits of a number that has enough of them. -/
theorem leading_bounds {m : Nat} (hm : 52 ≤ m.log2) :
    2 ^ 52 ≤ m / 2 ^ (m.log2 - 52) ∧ m / 2 ^ (m.log2 - 52) < 2 ^ 53 := by
  have hne : m ≠ 0 := by
    rintro rfl
    exact absurd hm (by decide)
  have hsplit : 2 ^ 52 * 2 ^ (m.log2 - 52) = 2 ^ m.log2 := by
    rw [← Nat.pow_add, Nat.add_sub_cancel' hm]
  have hlog : m < 2 ^ m.log2 * 2 := Nat.lt_log2_self
  constructor
  · rw [Nat.le_div_iff_mul_le (Nat.two_pow_pos _), hsplit]
    exact Nat.log2_self_le hne
  · rw [Nat.div_lt_iff_lt_mul (Nat.two_pow_pos _)]
    omega

theorem log2_leading {m : Nat} (hm : 52 ≤ m.log2) : (m / 2 ^ (m.log2 - 52)).log2 = 52 :=
  (Nat.log2_eq_iff (by have := leading_bounds hm; omega)).2 (leading_bounds hm)

theorem mantissa_shiftRight (em : ExtendedMantissa) (n : Nat) :
    (em >>> n).mantissa = em.mantissa / 2 ^ n := by
  change (n.repeat ExtendedMantissa.shiftRightOne em).mantissa = _
  induction n with
  | zero => simp [Nat.repeat]
  | succ n ih =>
      rw [Nat.repeat, ExtendedMantissa.shiftRightOne, ih, Nat.div_div_eq_div_mul, ← Nat.pow_succ]

/-- A mantissa that is long enough loses the bits behind its leading ones. -/
theorem shiftToTargetExponent_of_le {m : Nat} {e : Int} (accuracy : Accuracy) (hm : 52 ≤ m.log2)
    (he : 0 ≤ m.log2 + e) :
    (shiftToTargetExponent .binary64 m e accuracy).1.mantissa = m / 2 ^ (m.log2 - 52) ∧
      (shiftToTargetExponent .binary64 m e accuracy).2 = e + (m.log2 - 52 : Nat) := by
  have htarget : Format.binary64.targetExponent (totalExponent m e) = m.log2 + e - 52 := by
    simp only [Format.targetExponent, totalExponent, Format.mantissaBits, Format.minExponent]
    omega
  have hshift : (m.log2 + e - 52 - e).toNat = m.log2 - 52 := by omega
  unfold shiftToTargetExponent shiftToExponent
  dsimp only
  rw [htarget, hshift, mantissa_shiftRight]
  refine ⟨?_, rfl⟩
  cases accuracy with
  | exact => rfl
  | inexact order => cases order <;> rfl

theorem le_roundedMantissa (em : ExtendedMantissa) : em.mantissa ≤ em.roundedMantissa := by
  obtain ⟨m, round, sticky⟩ := em
  cases round <;> cases sticky <;>
    simp [ExtendedMantissa.roundedMantissa, ExtendedMantissa.accuracy, Accuracy.roundToNearestEven]

theorem atLeastOne_roundWithAccuracy {m : Nat} {e : Int} (accuracy : Accuracy)
    (hm : 52 ≤ m.log2) (he : 0 ≤ m.log2 + e) :
    AtLeastOne (roundWithAccuracy .binary64 .positive m e accuracy) := by
  obtain ⟨hmantissa, hexponent⟩ := shiftToTargetExponent_of_le accuracy hm he
  unfold roundWithAccuracy
  dsimp only
  generalize shiftToTargetExponent .binary64 m e accuracy = first at hmantissa hexponent ⊢
  have hlow : 2 ^ 52 ≤ first.1.roundedMantissa := by
    have hle := le_roundedMantissa first.1
    have hleading := (leading_bounds hm).1
    omega
  have hlog : 52 ≤ first.1.roundedMantissa.log2 := (Nat.le_log2 (by omega)).2 hlow
  -- Rounding may have carried into one bit more, which is shifted out again.
  obtain ⟨hmantissa', hexponent'⟩ := shiftToTargetExponent_of_le .exact hlog
    (e := first.2) (by omega)
  generalize shiftToTargetExponent .binary64 first.1.roundedMantissa first.2 .exact = second
    at hmantissa' hexponent' ⊢
  have hfinal : second.1.mantissa.log2 = 52 := hmantissa' ▸ log2_leading hlog
  rw [dif_neg]
  · exact .finite hfinal (by omega)
  · intro hzero
    rw [hzero] at hfinal
    exact absurd hfinal (by decide)

theorem AtLeastOne.mul {x y : UnpackedFloat} (hx : AtLeastOne x) (hy : AtLeastOne y) :
    AtLeastOne (UnpackedFloat.mul .binary64 x y) := by
  cases hx with
  | infinity =>
      cases hy with
      | _ => exact .infinity
  | finite hlog he =>
      cases hy with
      | infinity => exact .infinity
      | finite hlog' he' =>
          rename_i m e hm m' e' hm'
          have hlow := ((Nat.log2_eq_iff (by omega)).1 hlog).1
          have hlow' := ((Nat.log2_eq_iff (by omega)).1 hlog').1
          have hprod : 2 ^ 104 ≤ m * m' := by
            calc 2 ^ 104 = 2 ^ 52 * 2 ^ 52 := rfl
              _ ≤ m * m' := Nat.mul_le_mul hlow hlow'
          have hprodLog : 104 ≤ (m * m').log2 := (Nat.le_log2 (by omega)).2 hprod
          exact atLeastOne_roundWithAccuracy .exact (by omega) (by omega)

theorem atLeastOne_packedInfinity :
    AtLeastOne (UnpackedFloat.unpack .binary64 (packedInfinity .binary64 .positive)) :=
  .infinity

theorem log2_implicitBit (m : BitVec 52) : (1#1 ++ m).toNat.log2 = 52 := by
  have hm := m.isLt
  have happend : (1#1 ++ m).toNat = 2 ^ 52 + m.toNat := by
    rw [BitVec.toNat_append, ← Nat.shiftLeft_add_eq_or_of_lt hm]
    rfl
  exact (Nat.log2_eq_iff (by omega)).2 (by omega)

/-- Components with an exponent in the middle are those of a finite number. -/
theorem atLeastOne_packComponents {biased : Nat} (hlow : 1023 ≤ biased) (hhigh : biased < 2047)
    (m : BitVec 52) : AtLeastOne (UnpackedFloat.unpack .binary64
      (packComponents .binary64 .positive (BitVec.ofNat 11 biased) m)) := by
  have hexponent : (BitVec.ofNat 11 biased).toNat = biased := by
    rw [BitVec.toNat_ofNat, Nat.mod_eq_of_lt (by omega)]
  have hfinite : BitVec.ofNat 11 biased ≠ -1#_ := by
    rw [ne_eq, ← BitVec.toNat_inj, hexponent]
    change biased ≠ 2047
    omega
  have hnormal : BitVec.ofNat 11 biased ≠ 0#_ := by
    rw [ne_eq, ← BitVec.toNat_inj, hexponent]
    change biased ≠ 0
    omega
  unfold UnpackedFloat.unpack
  dsimp only
  simp only [unpackMantissa_packComponents, unpackExponent_packComponents,
    unpackSign_packComponents]
  rw [if_neg hfinite, if_neg hnormal, hexponent]
  refine .finite (log2_implicitBit m) ?_
  simp only [Format.exponentBias]
  omega

/-- A number of at least one stays one when it is stored in 64 bits. -/
theorem AtLeastOne.unpack_pack {x : UnpackedFloat} (hx : AtLeastOne x) :
    AtLeastOne (UnpackedFloat.unpack .binary64 (UnpackedFloat.pack .binary64 x)) := by
  cases hx with
  | infinity => exact atLeastOne_packedInfinity
  | finite hlog he =>
      rename_i m e hm
      unfold UnpackedFloat.pack
      dsimp only
      have hbias : Format.exponentBias .binary64 = 1023 := rfl
      split
      · exact atLeastOne_packedInfinity
      · rename_i hfit
        rw [if_pos (by rw [hlog]; rfl)]
        exact atLeastOne_packComponents (by omega) (by omega) _

theorem log2_shiftLeft {n : Nat} (hn : n ≠ 0) (k : Nat) : (n <<< k).log2 = n.log2 + k := by
  induction k with
  | zero => rfl
  | succ k ih =>
      have hne : n <<< k ≠ 0 := by
        rw [Nat.shiftLeft_eq]
        exact Nat.mul_ne_zero hn (Nat.ne_of_gt (Nat.two_pow_pos k))
      rw [Nat.shiftLeft_succ, Nat.log2_two_mul hne, ih, Nat.add_assoc]

theorem atLeastOne_normalize {n : Nat} (hn : 0 < n) :
    AtLeastOne (UnpackedFloat.normalize .binary64 n 0 .positive) := by
  have htarget : Format.binary64.targetExponent (totalExponent n 0) = n.log2 - 52 := by
    simp only [Format.targetExponent, totalExponent, Format.mantissaBits, Format.minExponent]
    omega
  have hshift : (0 - ((n.log2 : Int) - 52)).toNat = 52 - n.log2 := by omega
  have hlog : (n <<< (52 - n.log2)).log2 = n.log2 + (52 - n.log2) :=
    log2_shiftLeft (by omega) _
  unfold UnpackedFloat.normalize
  rw [Int.compare_eq_gt.2 (by omega)]
  unfold UnpackedFloat.round decreaseExponent
  dsimp only
  rw [Int.toNat_natCast, htarget, hshift]
  exact atLeastOne_roundWithAccuracy .exact (by omega) (by omega)

theorem atLeastOne_ofScientific {n : Nat} (hn : 0 < n) :
    AtLeastOne (UnpackedFloat.ofScientific .binary64 n 0) := by
  have hbits : Format.mantissaBits .binary64 = 53 := rfl
  have hpower : (10 : Nat) ^ (0 : Int).toNat = 1 := rfl
  have hsmall : ¬(0 : Int) < -((2 ^ Format.exponentBits .binary64 : Int) + n.log2) := by
    change ¬(0 : Int) < -(2048 + n.log2)
    omega
  have hlog := log2_shiftLeft (Nat.ne_of_gt hn) 53
  unfold UnpackedFloat.ofScientific
  rw [dif_neg (by omega), if_neg (by decide), if_neg hsmall, if_pos (by decide)]
  simp only [UnpackedFloat.mul, hbits, hpower, Nat.mul_one]
  exact atLeastOne_roundWithAccuracy .exact (by omega) (by omega)

/-- What a float is unpacked to that was packed. -/
theorem unpack_ofModel_pack (x : UnpackedFloat) : (Float.ofModel (.pack x)).toModel.unpack =
    UnpackedFloat.unpack .binary64 (UnpackedFloat.pack .binary64 x) := rfl

theorem ofBits_eq_pack (bits : UInt64) : Float.ofBits bits =
    .ofModel (.pack (UnpackedFloat.unpack .binary64 bits.toBitVec)) := rfl

theorem atLeastOne_one : AtLeastOne (Float.ofBits 0x3FF0000000000000).toModel.unpack := by
  have hbits : (0x3FF0000000000000 : UInt64).toBitVec =
      packComponents .binary64 .positive (BitVec.ofNat 11 1023) 0#52 := by decide
  rw [ofBits_eq_pack, unpack_ofModel_pack, hbits]
  exact (atLeastOne_packComponents (by decide) (by decide) _).unpack_pack

/-- A positive number becomes a float of at least one, at whatever length. -/
theorem ofNat_eq_pack {n : Nat} (hn : 0 < n) :
    ∃ x, AtLeastOne x ∧ Float.ofNat n = .ofModel (.pack x) := by
  change ∃ x, AtLeastOne x ∧ Float.ofScientific n false 0 = .ofModel (.pack x)
  unfold Float.ofScientific
  split
  · rename_i hshort
    have hsame : n.toUInt64.toNat = n := UInt64.toNat_ofNat_of_lt' (by
      change n < 2 ^ 64
      omega)
    have hfloat : AtLeastOne n.toUInt64.toFloat.toModel.unpack := by
      refine AtLeastOne.unpack_pack (x := UnpackedFloat.ofNat .binary64 n.toUInt64.toNat) ?_
      rw [hsame]
      exact atLeastOne_normalize hn
    exact ⟨_, hfloat.mul atLeastOne_one, rfl⟩
  · exact ⟨_, atLeastOne_ofScientific hn, rfl⟩

/-- A double that is not a number, or is one without a minus sign. -/
def Unsigned (x : Binary64) : Prop := x.isNaN = true ∨ x.isNegative = false

theorem ne_unknown_of_unsigned {x : Binary64} (hx : Unsigned x) : x ≠ LoadScale.unknown := by
  rintro rfl
  rcases hx with hnan | hsign
  · exact absurd hnan (by decide)
  · exact absurd hsign (by decide)

theorem plus_toFloat {x : Binary64} (h : x.isNegative = false) : Plus x.toFloat.toModel.unpack := by
  rw [toFloat, ofBits_eq_pack, unpack_ofModel_pack]
  exact plus_unpack (plus_unpack (isNegative_eq_false_iff.1 h)).unpackSign_pack

theorem unsigned_pack {x : UnpackedFloat} (hx : Plus x) :
    Unsigned ⟨(Float.ofModel (.pack x)).toBits⟩ :=
  Or.inr (isNegative_eq_false_iff.2 hx.unpackSign_pack)

theorem isNaN_quiet {x : Binary64} (h : x.isNaN = true) : x.quiet.isNaN = true := by
  rw [isNaN, decide_eq_true_iff] at h ⊢
  refine UInt64.lt_of_lt_of_le h (UInt64.le_iff_toNat_le.2 ?_)
  rw [quiet, UInt64.toNat_and, UInt64.toNat_and, UInt64.toNat_or, Nat.and_or_distrib_right]
  exact Nat.left_le_or

/-- An operation that keeps floats without a minus sign keeps loads without one. -/
theorem Unsigned.lift {op : Float → Float → Float}
    {f : UnpackedFloat → UnpackedFloat → UnpackedFloat}
    (hop : ∀ x y, op x y = .ofModel (.pack (f x.toModel.unpack y.toModel.unpack)))
    (hf : ∀ {x y}, Plus x → Plus y → Plus (f x y)) {x y : Binary64} (hx : Unsigned x)
    (hy : Unsigned y) : Unsigned (Binary64.lift op x y) := by
  unfold Binary64.lift
  split
  · rename_i hnan
    exact Or.inl (isNaN_quiet hnan)
  · rename_i hxnum
    split
    · rename_i hnan
      exact Or.inl (isNaN_quiet hnan)
    · rename_i hynum
      split
      · exact Or.inl (by decide)
      · rw [hop]
        exact unsigned_pack (hf (plus_toFloat (hx.resolve_left hxnum))
          (plus_toFloat (hy.resolve_left hynum)))

theorem Unsigned.add {x y : Binary64} (hx : Unsigned x) (hy : Unsigned y) : Unsigned (x + y) :=
  Unsigned.lift (fun _ _ => rfl) Plus.add hx hy

theorem Unsigned.div {x y : Binary64} (hx : Unsigned x) (hy : Unsigned y) : Unsigned (x / y) :=
  Unsigned.lift (fun _ _ => rfl) Plus.div hx hy

theorem unsigned_zero : Unsigned Load.zero := Or.inr (by decide)

theorem unsigned_ofNat (n : Nat) : Unsigned (LoadScale.ofNat n) := by
  rcases Nat.eq_zero_or_pos n with rfl | hn
  · exact unsigned_zero
  · obtain ⟨x, hx, hpack⟩ := ofNat_eq_pack hn
    change Unsigned ⟨(Float.ofNat n).toBits⟩
    rw [hpack]
    exact unsigned_pack hx.plus

theorem unsigned_clamp {x : Binary64} (hx : Unsigned x) : Unsigned (Load.clamp x) := by
  unfold Load.clamp
  dsimp only
  split
  · exact unsigned_ofNat 1
  · split
    · exact unsigned_zero
    · exact hx

theorem unsigned_ratio (used elapsed : Counter) :
    Unsigned (Load.ratio used elapsed : Binary64) :=
  unsigned_clamp ((unsigned_ofNat _).div (unsigned_ofNat _))

theorem unsigned_mean {sum : Binary64} (hsum : Unsigned sum) (n : Nat) :
    Unsigned (Load.mean sum n) :=
  hsum.div (unsigned_ofNat n)

theorem zero_add_zero : (Load.zero + Load.zero : Binary64) = Load.zero := by decide

theorem AtLeastOne.isNaN_eq_false {x : Binary64}
    (h : AtLeastOne (UnpackedFloat.unpack .binary64 x.bits.toBitVec)) : x.isNaN = false := by
  rw [Bool.eq_false_iff]
  intro hnan
  obtain ⟨hexponent, hmantissa⟩ := isNaN_iff.1 hnan
  have hunpack : UnpackedFloat.unpack .binary64 x.bits.toBitVec = .notANumber := by
    unfold UnpackedFloat.unpack
    dsimp only
    rw [if_pos hexponent, if_neg hmantissa]
  rw [hunpack] at h
  cases h

theorem AtLeastOne.div_eq_zero {x : UnpackedFloat} (hx : AtLeastOne x) :
    UnpackedFloat.div .binary64 (.zero .positive) x = .zero .positive := by
  cases hx with
  | infinity => rfl
  | finite => rfl

theorem zero_div {y : Binary64}
    (hy : AtLeastOne (UnpackedFloat.unpack .binary64 y.bits.toBitVec)) :
    Load.zero / y = Load.zero := by
  have hfloat : AtLeastOne y.toFloat.toModel.unpack := by
    rw [toFloat, ofBits_eq_pack, unpack_ofModel_pack]
    exact hy.unpack_pack
  have hzero : (Load.zero : Binary64).toFloat.toModel.unpack = .zero .positive := rfl
  have hquotient : (Load.zero : Binary64).toFloat / y.toFloat =
      .ofModel (.pack (.zero .positive)) := by
    change Float.ofModel (.pack (UnpackedFloat.div .binary64 _ _)) = _
    rw [hzero, hfloat.div_eq_zero]
  change Binary64.lift (· / ·) Load.zero y = Load.zero
  rw [Binary64.lift, if_neg (by decide), hy.isNaN_eq_false, if_neg Bool.false_ne_true, hquotient]
  decide

/-- Zero divided by a positive number is zero. -/
theorem mean_zero {n : Nat} (hn : 0 < n) : Load.mean (Load.zero : Binary64) n = Load.zero := by
  obtain ⟨x, hx, hpack⟩ := ofNat_eq_pack hn
  refine zero_div ?_
  change AtLeastOne (Float.ofNat n).toModel.unpack
  rw [hpack]
  exact hx.unpack_pack

end Binary64

end ResourceMetrics
