import Mathlib.Algebra.Ring.Nat
import ResourceMetrics.HostFiles
import ResourceMetrics.MonitorCpu

/-! The arithmetic from parsed numbers to results, with every step checked against the width of
the word that it is made in and every divisor checked for zero. Whatever numbers are parsed, one
step may fail: the product that turns a weight into shares. All other steps fit, and the formulas
of the model are what the checked steps come to. -/

namespace ResourceMetrics

namespace Checked

/-- A result, if it fits a word of so many bits. -/
def fit (width n : Nat) : Option Nat := if n < 2 ^ width then some n else none

def add (width a b : Nat) : Option Nat := fit width (a + b)

def mul (width a b : Nat) : Option Nat := fit width (a * b)

def sub (a b : Nat) : Option Nat := if b ≤ a then some (a - b) else none

def div (a b : Nat) : Option Nat := if b = 0 then none else some (a / b)

def mod (a b : Nat) : Option Nat := if b = 0 then none else some (a % b)

theorem fit_of_lt {width n : Nat} (h : n < 2 ^ width) : fit width n = some n := if_pos h

theorem add_of_lt {width a b : Nat} (h : a + b < 2 ^ width) : add width a b = some (a + b) :=
  fit_of_lt h

theorem mul_of_lt {width a b : Nat} (h : a * b < 2 ^ width) : mul width a b = some (a * b) :=
  fit_of_lt h

theorem sub_of_le {a b : Nat} (h : b ≤ a) : sub a b = some (a - b) := if_pos h

theorem div_of_pos {a b : Nat} (h : 0 < b) : div a b = some (a / b) := if_neg (Nat.ne_of_gt h)

theorem mod_of_pos {a b : Nat} (h : 0 < b) : mod a b = some (a % b) := if_neg (Nat.ne_of_gt h)

/-- A number of shares, rounded to whole CPUs. -/
def wholeCpus (shares : Nat) : Option Nat :=
  if shares ≤ 1024 then some 1024
  else do
    let cpus ← div shares 1024
    let lower ← mul 64 cpus 1024
    let upper ← add 64 lower 1024
    let above ← sub shares lower
    let below ← sub upper shares
    pure (if above ≤ below then lower else upper)

/-- The shares of a weight that stands for some. -/
def shares (weight : Nat) : Option Nat := do
  let product ← mul 64 262142 weight
  let shifted ← sub product 1
  let steps ← div shifted 9999
  let shares ← add 64 steps 2
  wholeCpus shares

/-- Division that rounds up. -/
def units (amount unit : Nat) : Option Nat := do
  let whole ← div amount unit
  let rest ← mod amount unit
  if 0 < rest then add 64 whole 1 else pure whole

/-- A product of two words in 128 bits, divided by a third. -/
def scale (amount factor divisor : Nat) : Option Nat := do
  let product ← mul 128 amount factor
  div product divisor

/-- The CPU at a place of a range. -/
def index (part : CpuList.Part) (i : Nat) : Option Nat := do
  let offset ← mul 32 i part.stride.toNat
  add 32 part.first.toNat offset

theorem wholeCpus_eq {n : Nat} (h : n + 1024 < 2 ^ 64) :
    wholeCpus n = some (CpuWeight.nearestWholeCpus n) := by
  unfold wholeCpus CpuWeight.nearestWholeCpus sharesPerCpu
  by_cases hsmall : n ≤ 1024
  · rw [if_pos hsmall, if_pos hsmall]
  · have hle : n / 1024 * 1024 ≤ n := Nat.div_mul_le_self n 1024
    have hcpus : div n 1024 = some (n / 1024) := div_of_pos (by decide)
    have hlower : mul 64 (n / 1024) 1024 = some (n / 1024 * 1024) := mul_of_lt (by omega)
    have hupper : add 64 (n / 1024 * 1024) 1024 = some (n / 1024 * 1024 + 1024) :=
      add_of_lt (by omega)
    have hbelow : sub (n / 1024 * 1024 + 1024) n = some (n / 1024 * 1024 + 1024 - n) :=
      sub_of_le (by omega)
    rw [if_neg hsmall, if_neg hsmall]
    simp only [hcpus, hlower, hupper, sub_of_le hle, hbelow, bind, Option.bind_some, pure]

theorem nearestWholeCpus_bounds (n : Nat) :
    1024 ≤ CpuWeight.nearestWholeCpus n ∧ CpuWeight.nearestWholeCpus n ≤ n + 1024 := by
  unfold CpuWeight.nearestWholeCpus sharesPerCpu
  split
  · omega
  · dsimp only
    split <;> omega

/-- Behind the product there is room to spare. -/
theorem shares_eq {weight : Nat} (hpos : 0 < weight) : shares weight =
    if 262142 * weight < 2 ^ 64 then
      some (CpuWeight.nearestWholeCpus ((262142 * weight - 1) / 9999 + 2))
    else none := by
  unfold shares mul fit
  by_cases hfit : 262142 * weight < 2 ^ 64
  · have hshifted : sub (262142 * weight) 1 = some (262142 * weight - 1) := sub_of_le (by omega)
    have hsteps : div (262142 * weight - 1) 9999 = some ((262142 * weight - 1) / 9999) :=
      div_of_pos (by decide)
    have hshares : add 64 ((262142 * weight - 1) / 9999) 2 =
        some ((262142 * weight - 1) / 9999 + 2) := add_of_lt (by omega)
    rw [if_pos hfit, if_pos hfit]
    simp only [hshifted, hsteps, hshares, bind, Option.bind_some]
    exact wholeCpus_eq (by omega)
  · rw [if_neg hfit, if_neg hfit]
    rfl

theorem roundUp_of_mod_pos {amount unit : Nat} (hunit : 0 < unit) (h : 0 < amount % unit) :
    (amount + unit - 1) / unit = amount / unit + 1 := by
  have hsplit := Nat.div_add_mod amount unit
  have hrest := Nat.mod_lt amount hunit
  have hsum : amount + unit - 1 = (amount % unit - 1) + unit * (amount / unit + 1) := by
    rw [Nat.mul_add]
    omega
  rw [hsum, Nat.add_mul_div_left _ _ hunit, Nat.div_eq_of_lt (by omega), Nat.zero_add]

theorem roundUp_of_mod_zero {amount unit : Nat} (hunit : 0 < unit) (h : amount % unit = 0) :
    (amount + unit - 1) / unit = amount / unit := by
  have hsplit := Nat.div_add_mod amount unit
  have hsum : amount + unit - 1 = (unit - 1) + unit * (amount / unit) := by omega
  rw [hsum, Nat.add_mul_div_left _ _ hunit, Nat.div_eq_of_lt (by omega), Nat.zero_add]

/-- Where one is added to a quotient the divisor is above one, so the sum fits. -/
theorem units_eq {amount unit : Nat} (hamount : amount < 2 ^ 64) (hunit : 0 < unit) :
    units amount unit = some ((amount + unit - 1) / unit) := by
  have hwhole : div amount unit = some (amount / unit) := div_of_pos hunit
  have hrest : mod amount unit = some (amount % unit) := mod_of_pos hunit
  unfold units
  simp only [hwhole, hrest, bind, Option.bind_some]
  rcases Nat.eq_zero_or_pos (amount % unit) with hzero | hpos
  · rw [hzero, if_neg (Nat.lt_irrefl 0), roundUp_of_mod_zero hunit hzero]
    rfl
  · have htwo : 2 ≤ unit := by
      have hlt := Nat.mod_lt amount hunit
      omega
    have hhalf : amount / unit ≤ amount / 2 := Nat.div_le_div_left htwo (by decide)
    rw [if_pos hpos, add_of_lt (by omega), roundUp_of_mod_pos hunit hpos]

theorem scale_eq {amount factor divisor : Nat} (hamount : amount < 2 ^ 64)
    (hfactor : factor < 2 ^ 64) (hdivisor : 0 < divisor) :
    scale amount factor divisor = some (amount * factor / divisor) := by
  have hproduct : amount * factor < 2 ^ 128 := by
    calc amount * factor < 2 ^ 64 * 2 ^ 64 := Nat.mul_lt_mul'' hamount hfactor
      _ = 2 ^ 128 := by rw [← Nat.pow_add]
  unfold scale
  simp only [mul_of_lt hproduct, bind, Option.bind_some, div_of_pos hdivisor]

/-- No CPU of a range lies behind its end. -/
theorem index_eq {part : CpuList.Part} (h : part.first ≤ part.last) {i : Nat}
    (hi : i ≤ (part.last.toNat - part.first.toNat) / part.stride.toNat) :
    index part i = some (part.first.toNat + i * part.stride.toNat) := by
  have hoffset : i * part.stride.toNat ≤ part.last.toNat - part.first.toNat :=
    Nat.le_trans (Nat.mul_le_mul_right _ hi) (Nat.div_mul_le_self _ _)
  have hle := UInt32.le_iff_toNat_le.1 h
  have hlast := part.last.toNat_lt
  have hproduct : mul 32 i part.stride.toNat = some (i * part.stride.toNat) :=
    mul_of_lt (by omega)
  have hsum : add 32 part.first.toNat (i * part.stride.toNat) =
      some (part.first.toNat + i * part.stride.toNat) := add_of_lt (by omega)
  unfold index
  simp only [hproduct, hsum, bind, Option.bind_some]

end Checked

theorem bind_eq_ok_iff {ε β γ : Type} {x : Except ε β} {f : β → Except ε γ} {c : γ} :
    x >>= f = .ok c ↔ ∃ b, x = .ok b ∧ f b = .ok c := by
  cases x with
  | error cause => exact iff_of_false nofun fun ⟨_, hx, _⟩ => nomatch hx
  | ok b => exact ⟨fun h => ⟨b, rfl, h⟩, fun ⟨_, hx, h⟩ => Except.ok.inj hx ▸ h⟩

namespace CpuList

theorem readStride_ne_zero {t : Option Text} {stride : CpuIndex} (h : readStride t = .ok stride) :
    stride ≠ 0 := by
  cases t with
  | none =>
      cases h
      decide
  | some t =>
      obtain ⟨n, -, h⟩ := bind_eq_ok_iff.1 h
      split at h
      · cases h
      · rename_i hzero
        exact Except.ok.inj h ▸ hzero

/-- The range of a part is in order, and its stride is not zero. -/
theorem readPart_ok {t : Text} {part : Part} (h : readPart t = .ok part) :
    part.first ≤ part.last ∧ part.stride ≠ 0 := by
  unfold readPart at h
  split at h
  · obtain ⟨cpu, -, h⟩ := bind_eq_ok_iff.1 h
    obtain rfl := Except.ok.inj h
    exact ⟨UInt32.le_refl cpu, by simp⟩
  · obtain ⟨first, -, h⟩ := bind_eq_ok_iff.1 h
    obtain ⟨last, -, h⟩ := bind_eq_ok_iff.1 h
    obtain ⟨stride, hstride, h⟩ := bind_eq_ok_iff.1 h
    split at h
    · cases h
    · rename_i hle
      obtain rfl := Except.ok.inj h
      exact ⟨UInt32.not_lt.1 hle, readStride_ne_zero hstride⟩

end CpuList

namespace CpuWeight

/-- Weights that stand for no shares are the default and zero. -/
def StandsForShares (w : CpuWeight) : Prop := w.weight ≠ 0 ∧ w.weight ≠ 100

theorem StandsForShares.not_idle {w : CpuWeight} (h : w.StandsForShares) :
    ¬(w.weight = ({} : CpuWeight).weight || w.weight = 0) = true := by
  simpa using ⟨h.2, h.1⟩

theorem shares?_eq_none {w : CpuWeight} (h : ¬w.StandsForShares) : w.shares? = .ok none := by
  have hnone : w.weight = 100 ∨ w.weight = 0 := by
    by_cases hzero : w.weight = 0
    · exact Or.inr hzero
    · exact Or.inl (Decidable.not_not.1 fun hset => h ⟨hzero, hset⟩)
  exact if_pos (by simpa using hnone)

/-- Where the product fits, so does the number of shares. -/
theorem shares?_of_lt {w : CpuWeight} (h : w.StandsForShares)
    (hfit : 262142 * w.weight.toNat < 2 ^ 64) :
    ∃ k : Counter, w.shares? = .ok (some k) ∧
      k.toNat = nearestWholeCpus ((262142 * w.weight.toNat - 1) / 9999 + 2) := by
  have hspan : shareSpan.toNat = 262142 := rfl
  have hproduct : shareSpan.mul? w.weight = some (UInt64.ofNat (262142 * w.weight.toNat)) := by
    rw [Counter.mul?_eq_some_iff, hspan, UInt64.toNat_ofNat_of_lt' hfit]
  obtain ⟨-, hhigh⟩ := Checked.nearestWholeCpus_bounds ((262142 * w.weight.toNat - 1) / 9999 + 2)
  refine ⟨UInt64.ofNat (nearestWholeCpus ((262142 * w.weight.toNat - 1) / 9999 + 2)), ?_,
    UInt64.toNat_ofNat_of_lt' (by rw [UInt64.size]; omega)⟩
  unfold shares? Counter.mulOrFault
  rw [if_neg h.not_idle, hproduct]
  change Except.ok (some (UInt64.ofNat (nearestWholeCpus
    (((UInt64.ofNat (262142 * w.weight.toNat)).toNat - 1) / weightSpan + 2)))) = _
  rw [UInt64.toNat_ofNat_of_lt' hfit]
  rfl

theorem shares?_of_le {w : CpuWeight} (h : w.StandsForShares)
    (hover : 2 ^ 64 ≤ 262142 * w.weight.toNat) : w.shares? = .error .multiplication := by
  have hproduct : shareSpan.mul? w.weight = none := Counter.ofNat?_eq_none_iff.2 hover
  unfold shares? Counter.mulOrFault
  rw [if_neg h.not_idle, hproduct]
  rfl

/-- The product is all that a number of shares may fail at. -/
theorem shares?_cases {w : CpuWeight} (h : w.StandsForShares) :
    (262142 * w.weight.toNat < 2 ^ 64 ∧ ∃ k : Counter, w.shares? = .ok (some k) ∧ 0 < k ∧
        Checked.shares w.weight.toNat = some k.toNat) ∨
      (2 ^ 64 ≤ 262142 * w.weight.toNat ∧ w.shares? = .error .multiplication ∧
        Checked.shares w.weight.toNat = none) := by
  have hpos : 0 < w.weight.toNat := by
    have hne := h.1
    rw [ne_eq, ← UInt64.toNat_inj] at hne
    exact Nat.pos_of_ne_zero hne
  rw [Checked.shares_eq hpos]
  rcases Nat.lt_or_ge (262142 * w.weight.toNat) (2 ^ 64) with hfit | hover
  · obtain ⟨k, hk, hvalue⟩ := shares?_of_lt h hfit
    obtain ⟨hlow, -⟩ :=
      Checked.nearestWholeCpus_bounds ((262142 * w.weight.toNat - 1) / 9999 + 2)
    refine Or.inl ⟨hfit, k, hk, ?_, ?_⟩
    · rw [UInt64.lt_iff_toNat_lt, hvalue, UInt64.toNat_zero]
      omega
    · rw [if_pos hfit, hvalue]
  · exact Or.inr ⟨hover, shares?_of_le h hover, if_neg (Nat.not_lt.2 hover)⟩

end CpuWeight

/-- The formulas of the model are what checked steps come to, and the steps all fit but one. -/
structure StepsFit : Prop where
  shares : ∀ {w : CpuWeight}, w.StandsForShares →
    (∀ k : Counter, w.shares? = .ok (some k) ↔ Checked.shares w.weight.toNat = some k.toNat) ∧
      ((∃ overflow, w.shares? = .error overflow) ↔ 2 ^ 64 ≤ 262142 * w.weight.toNat)
  units : ∀ {amount unit : Counter}, 0 < unit →
    (Checked.units amount.toNat unit.toNat).map count32 = some (unitsFor amount unit)
  nanoseconds : ∀ (host : HostFiles) (ticks : Counter),
    (Checked.scale ticks.toNat 1000000000 host.ticksPerSecond.toNat).map Counter.ofNat? =
      some (host.nanoseconds ticks)
  scaleDown : ∀ (time : Counter) {part whole : UInt32}, 0 < whole →
    (Checked.scale time.toNat part.toNat whole.toNat).map Counter.ofNat? =
      some (Monitor.scaleDown time part whole)
  cpus : ∀ {t : Text} {part : CpuList.Part}, CpuList.readPart t = .ok part →
    part.stride ≠ 0 ∧ part.cpus.map (some ·.toNat) =
      (List.range ((part.last.toNat - part.first.toNat) / part.stride.toNat + 1)).map
        (Checked.index part)

theorem stepsFit : StepsFit where
  shares {w} hw := by
    rcases CpuWeight.shares?_cases hw with ⟨hfit, k, hk, -, hchecked⟩ | ⟨hover, herror, hchecked⟩
    · rw [hk, hchecked]
      refine ⟨fun k' => ?_, iff_of_false nofun (Nat.not_le.2 hfit)⟩
      rw [Except.ok.injEq, Option.some.injEq, Option.some.injEq, UInt64.toNat_inj]
    · rw [herror, hchecked]
      exact ⟨fun k => iff_of_false nofun nofun, iff_of_true ⟨_, rfl⟩ hover⟩
  units {amount unit} hunit := by
    rw [Checked.units_eq amount.toNat_lt_size (UInt64.lt_iff_toNat_lt.1 hunit)]
    rfl
  nanoseconds host ticks := by
    have hrate := UInt64.lt_iff_toNat_lt.1 host.ticksPerSecond_pos
    rw [Checked.scale_eq ticks.toNat_lt_size (by decide) hrate]
    rfl
  scaleDown time {part whole} hwhole := by
    have hpart := part.toNat_lt_size
    rw [Checked.scale_eq time.toNat_lt_size (Nat.lt_trans hpart (by decide))
      (UInt32.lt_iff_toNat_lt.1 hwhole)]
    rfl
  cpus {t part} hpart := by
    obtain ⟨hle, hstride⟩ := CpuList.readPart_ok hpart
    refine ⟨hstride, ?_⟩
    unfold CpuList.Part.cpus
    rw [List.map_map]
    apply List.map_congr_left
    intro i hi
    have hi' := Nat.le_of_lt_succ (List.mem_range.1 hi)
    have hindex := Checked.index_eq hle hi'
    have hbound : part.first.toNat + i * part.stride.toNat ≤ part.last.toNat := by
      have hoffset : i * part.stride.toNat ≤ part.last.toNat - part.first.toNat :=
        Nat.le_trans (Nat.mul_le_mul_right _ hi') (Nat.div_mul_le_self _ _)
      have hle' := UInt32.le_iff_toNat_le.1 hle
      omega
    have hlt : part.first.toNat + i * part.stride.toNat < UInt32.size :=
      Nat.lt_of_le_of_lt hbound part.last.toNat_lt_size
    rw [Function.comp, hindex, UInt32.toNat_ofNat_of_lt' hlt]

end ResourceMetrics
