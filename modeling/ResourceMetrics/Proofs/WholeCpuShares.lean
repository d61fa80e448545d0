import Mathlib.Data.Nat.Dist
import ResourceMetrics.Proofs.CheckedArithmetic

/-! What the rounding to whole CPUs does to shares. It takes the nearest multiple, and the lower one
of two that are equally near; this alone fixes the result and makes it grow with the shares. A
weight keeps its shares up to a small error, so those of whole CPUs come back from it unchanged. -/

namespace ResourceMetrics

/-- The positive multiple of a unit that is nearest to a number, the lower one of two that are
equally near. -/
structure IsNearestMultiple (unit n r : Nat) : Prop where
  multiple : ∃ k, 0 < k ∧ r = k * unit
  nearest : ∀ k, 0 < k → n.dist r ≤ n.dist (k * unit)
  lower : ∀ k, 0 < k → n.dist (k * unit) = n.dist r → r ≤ k * unit

namespace IsNearestMultiple

variable {unit n n' r r' : Nat}

/-- A larger number has no smaller multiple nearest: the numbers would lie on the wrong sides of
the middle between the two. -/
theorem mono (h : IsNearestMultiple unit n r) (h' : IsNearestMultiple unit n' r') (hle : n ≤ n') :
    r ≤ r' := by
  obtain ⟨k, hk, rfl⟩ := h.multiple
  obtain ⟨k', hk', rfl⟩ := h'.multiple
  by_contra hlt
  have hnear := h.nearest k' hk'
  have hne : n.dist (k' * unit) ≠ n.dist (k * unit) := fun heq => hlt (h.lower k' hk' heq)
  have hnear' := h'.nearest k hk
  simp only [Nat.dist] at hnear hne hnear'
  omega

theorem unique (h : IsNearestMultiple unit n r) (h' : IsNearestMultiple unit n r') : r = r' :=
  Nat.le_antisymm (h.mono h' (Nat.le_refl n)) (h'.mono h (Nat.le_refl n))

/-- Half a unit around a multiple, the upper end included, lie the numbers it is nearest to. Below
the first multiple there is no other. -/
theorem of_near (unit : Nat) {n k : Nat} (hk : 0 < k) (hbelow : 2 * n ≤ 2 * (k * unit) + unit)
    (habove : k = 1 ∨ 2 * (k * unit) < 2 * n + unit) : IsNearestMultiple unit n (k * unit) := by
  have hother (j : Nat) (hj : 0 < j) :
      n.dist (k * unit) ≤ n.dist (j * unit) ∧
        (n.dist (j * unit) = n.dist (k * unit) → k * unit ≤ j * unit) := by
    rcases Nat.lt_trichotomy j k with hlt | rfl | hgt
    · have hstep : (j + 1) * unit ≤ k * unit := Nat.mul_le_mul_right unit hlt
      rw [Nat.succ_mul] at hstep
      have hside := habove.resolve_left (by omega)
      simp only [Nat.dist]
      omega
    · exact ⟨Nat.le_refl _, fun _ => Nat.le_refl _⟩
    · have hstep : (k + 1) * unit ≤ j * unit := Nat.mul_le_mul_right unit hgt
      rw [Nat.succ_mul] at hstep
      simp only [Nat.dist]
      omega
  exact ⟨⟨k, hk, rfl⟩, fun j hj => (hother j hj).1, fun j hj => (hother j hj).2⟩

end IsNearestMultiple

namespace CpuWeight

theorem isNearestMultiple_nearestWholeCpus (shares : Nat) :
    IsNearestMultiple 1024 shares (nearestWholeCpus shares) := by
  unfold nearestWholeCpus sharesPerCpu
  split
  · have hone : IsNearestMultiple 1024 shares (1 * 1024) :=
      .of_near 1024 Nat.one_pos (by omega) (Or.inl rfl)
    exact hone
  · have hcpus : 0 < shares / 1024 := by omega
    dsimp only
    split
    · exact .of_near 1024 hcpus (by omega) (by omega)
    · have hupper : IsNearestMultiple 1024 shares ((shares / 1024 + 1) * 1024) :=
        .of_near 1024 (Nat.succ_pos _) (by omega) (by omega)
      rwa [Nat.succ_mul] at hupper

/-- The weight that is written for a number of shares. -/
def ofShares (shares : Nat) : Nat := 1 + (shares - 2) * 9999 / 262142

/-- The shares that a weight comes to before they are rounded. -/
def rawShares (weight : Nat) : Nat := (262142 * weight - 1) / 9999 + 2

/-- Both scales are rounded down, and what is lost is less than a step of the scale of weights. -/
theorem rawShares_ofShares (shares : Nat) (h : 2 ≤ shares) :
    shares ≤ rawShares (ofShares shares) ∧ rawShares (ofShares shares) ≤ shares + 26 := by
  unfold rawShares ofShares
  omega

/-- The shares of whole CPUs have a weight of their own, neither zero nor the default. -/
theorem ofShares_wholeCpus_ne {cpus : Nat} (h : 1 ≤ cpus) :
    ofShares (1024 * cpus) ≠ 0 ∧ ofShares (1024 * cpus) ≠ 100 := by
  unfold ofShares
  omega

theorem nearestWholeCpus_rawShares_ofShares {cpus : Nat} (h : 1 ≤ cpus) :
    nearestWholeCpus (rawShares (ofShares (1024 * cpus))) = 1024 * cpus := by
  obtain ⟨hlow, hhigh⟩ := rawShares_ofShares (1024 * cpus) (by omega)
  rw [Nat.mul_comm 1024 cpus] at hlow hhigh ⊢
  have hnear : IsNearestMultiple 1024 (rawShares (ofShares (cpus * 1024))) (cpus * 1024) :=
    .of_near 1024 h (by omega) (by omega)
  exact (isNearestMultiple_nearestWholeCpus _).unique hnear

theorem standsForShares_iff {w : CpuWeight} :
    w.StandsForShares ↔ w.weight.toNat ≠ 0 ∧ w.weight.toNat ≠ 100 := by
  unfold StandsForShares
  rw [ne_eq, ne_eq, ← UInt64.toNat_inj, ← UInt64.toNat_inj]
  rfl

/-- Shares of whole CPUs survive the way through the weight. -/
theorem shares?_of_wholeCpus (cpus : Nat) (h : 1 ≤ cpus) :
    (ofShares (1024 * cpus) ≠ 0 ∧ ofShares (1024 * cpus) ≠ 100) ∧
      ∀ w : CpuWeight, w.weight.toNat = ofShares (1024 * cpus) →
        262142 * ofShares (1024 * cpus) < 2 ^ 64 →
          ∃ k : Counter, w.shares? = .ok (some k) ∧ k.toNat = 1024 * cpus := by
  refine ⟨ofShares_wholeCpus_ne h, fun w hw hfit => ?_⟩
  have hset : w.StandsForShares := standsForShares_iff.2 (hw ▸ ofShares_wholeCpus_ne h)
  obtain ⟨k, hk, hvalue⟩ := shares?_of_lt hset (hw ▸ hfit)
  rw [hw] at hvalue
  exact ⟨k, hk, hvalue.trans (nearestWholeCpus_rawShares_ofShares h)⟩

/-- A billion CPUs, far beyond the weights that a group can have. -/
theorem shares?_of_wholeCpus_billion : 1 ≤ 1000000000 ∧
    ofShares (1024 * 1000000000) = 39058891746 ∧ 262142 * 39058891746 < 2 ^ 64 ∧
      ∃ k : Counter, (⟨39058891746⟩ : CpuWeight).shares? = .ok (some k) ∧
        k.toNat = 1024 * 1000000000 :=
  ⟨by decide, by decide, by decide,
    (shares?_of_wholeCpus 1000000000 (by decide)).2 ⟨39058891746⟩ (by decide) (by decide)⟩

/-- What becomes of a weight. -/
structure SharesLaw : Prop where
  none_iff : ∀ w : CpuWeight, w.shares? = .ok none ↔ w.weight = 0 ∨ w.weight = 100
  /-- The product is the only step that may exceed a counter. -/
  faults_iff : ∀ {w : CpuWeight}, w.weight ≠ 0 → w.weight ≠ 100 →
    ((∃ overflow, w.shares? = .error overflow) ↔ 2 ^ 64 ≤ 262142 * w.weight.toNat)
  /-- All steps fit if the product does, and the shares are rounded to the nearest. -/
  nearest : ∀ {w : CpuWeight}, w.weight ≠ 0 → w.weight ≠ 100 →
    262142 * w.weight.toNat < 2 ^ 64 → ∃ k : Counter, w.shares? = .ok (some k) ∧
      Checked.shares w.weight.toNat = some k.toNat ∧
        IsNearestMultiple 1024 ((262142 * w.weight.toNat - 1) / 9999 + 2) k.toNat
  mono : ∀ {w w' : CpuWeight} {k k' : Counter}, w.shares? = .ok (some k) →
    w'.shares? = .ok (some k') → w.weight ≤ w'.weight → k ≤ k'

theorem shares?_eq_none_iff {w : CpuWeight} :
    w.shares? = .ok none ↔ w.weight = 0 ∨ w.weight = 100 := by
  constructor
  · intro hnone
    by_contra hset
    rcases shares?_cases (not_or.1 hset) with ⟨-, k, hk, -⟩ | ⟨-, herror, -⟩
    · cases hnone.symm.trans hk
    · cases hnone.symm.trans herror
  · intro hidle
    exact shares?_eq_none fun hset => hidle.elim hset.1 hset.2

theorem nearest_of_shares? {w : CpuWeight} {k : Counter} (h : w.shares? = .ok (some k)) :
    IsNearestMultiple 1024 (rawShares w.weight.toNat) k.toNat := by
  have hset : w.StandsForShares := by
    by_contra hidle
    cases h.symm.trans (shares?_eq_none hidle)
  rcases shares?_cases hset with ⟨hfit, -⟩ | ⟨-, herror, -⟩
  · obtain ⟨k', hk', hvalue⟩ := shares?_of_lt hset hfit
    obtain rfl := Option.some.inj (Except.ok.inj (h.symm.trans hk'))
    rw [hvalue]
    exact isNearestMultiple_nearestWholeCpus _
  · cases h.symm.trans herror

theorem rawShares_mono {weight weight' : Nat} (h : weight ≤ weight') :
    rawShares weight ≤ rawShares weight' := by
  unfold rawShares
  omega

theorem sharesLaw : SharesLaw where
  none_iff w := shares?_eq_none_iff
  faults_iff hzero hdefault := (stepsFit.shares ⟨hzero, hdefault⟩).2
  nearest {w} hzero hdefault hfit := by
    rcases shares?_cases ⟨hzero, hdefault⟩ with ⟨-, k, hk, -, hchecked⟩ | ⟨hover, -⟩
    · exact ⟨k, hk, hchecked, nearest_of_shares? hk⟩
    · exact absurd hfit (Nat.not_lt.2 hover)
  mono hk hk' hle := UInt64.le_iff_toNat_le.2
    ((nearest_of_shares? hk).mono (nearest_of_shares? hk')
      (rawShares_mono (UInt64.le_iff_toNat_le.1 hle)))

/-- Nine and a half CPUs lie in the middle and are taken for nine. -/
theorem sharesLaw_tie : 262142 * 371 < 2 ^ 64 ∧ (262142 * 371 - 1) / 9999 + 2 = 9 * 1024 + 512 ∧
    ∃ k : Counter, (⟨371⟩ : CpuWeight).shares? = .ok (some k) ∧ k.toNat = 9 * 1024 := by
  have hweight : (⟨371⟩ : CpuWeight).weight.toNat = 371 := by decide
  have hraw : (262142 * 371 - 1) / 9999 + 2 = 9 * 1024 + 512 := by decide
  have hnine : IsNearestMultiple 1024 (9 * 1024 + 512) (9 * 1024) :=
    .of_near 1024 (by decide) (by decide) (by decide)
  obtain ⟨k, hk, -, hnearest⟩ :=
    sharesLaw.nearest (w := ⟨371⟩) (by decide) (by decide) (by decide)
  rw [hweight, hraw] at hnearest
  exact ⟨by decide, hraw, k, hk, hnearest.unique hnine⟩

end CpuWeight

end ResourceMetrics
