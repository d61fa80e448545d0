import Mathlib.Data.UInt
import Mathlib.Order.MinMax
import ResourceMetrics.Proofs.CpuReport

/-! The number of processors of a container is the least of its bounds, and at least 1. Each bound
is a number of units that hold an amount, so it is at most `n` exactly if the amount is at most `n`
units. Products are exact and the rounding is gone; that the result has 32 bits shows only at their
end, where every larger bound is the same. -/

namespace ResourceMetrics

variable {σ α : Type}

theorem toNat_count32 (k : Nat) : (count32 k).toNat = min k (2 ^ 32 - 1) := by
  unfold count32 count32?
  by_cases h : k < UInt32.size
  · rw [if_pos h, Option.getD_some, UInt32.toNat_ofNat_of_lt' h]
    rw [UInt32.size] at h
    omega
  · have hlast : (UInt32.ofNat (UInt32.size - 1)).toNat = 2 ^ 32 - 1 := rfl
    rw [if_neg h, Option.getD_none, hlast]
    rw [UInt32.size] at h
    omega

theorem count32_le_iff {k n : Nat} (hn : n < 2 ^ 32 - 1) : (count32 k).toNat ≤ n ↔ k ≤ n := by
  rw [toNat_count32, min_le_iff]
  exact or_iff_left (Nat.not_le.2 hn)

/-- An amount fits `n` units exactly if as many of them hold it. -/
theorem unitsFor_le_iff {amount unit : Counter} {n : Nat} (hunit : 0 < unit)
    (hn : n < 2 ^ 32 - 1) : (unitsFor amount unit).toNat ≤ n ↔ amount.toNat ≤ n * unit.toNat := by
  have hpos : 0 < unit.toNat := UInt64.lt_iff_toNat_lt.1 hunit
  rw [unitsFor, count32_le_iff hn, Nat.div_le_iff_le_mul_add_pred hpos, Nat.mul_comm]
  omega

theorem max_one_le_iff {cpus : UInt32} {n : Nat} (hn : 1 ≤ n) :
    (max cpus 1).toNat ≤ n ↔ cpus.toNat ≤ n := by
  rw [UInt32.toNat_max, max_le_iff]
  exact and_iff_left hn

/-- The CPUs to begin with: those of the CPU set, or those that the host has online if there is
none. -/
def CpuReport.baseCpus (report : CpuReport α) (c : ContainerReport) : Nat :=
  if c.cpuSet = [] then (report.onlineCpus.getD 1).toNat else c.cpuSet.length

/-- The shares are of at most `n` CPUs. -/
def SharesWithin (shares : Option Counter) (n : Nat) : Prop :=
  ∃ s, shares = some s ∧ 0 < s ∧ s.toNat ≤ 1024 * n

/-- The quota is at most `n` times the period. -/
def QuotaWithin (quota period : Option Counter) (n : Nat) : Prop :=
  ∃ q p, quota = some q ∧ period = some p ∧ 0 < q ∧ 0 < p ∧ q.toNat ≤ n * p.toNat

namespace Monitor

variable {cpus : UInt32} {n : Nat}

theorem sharesBound_le_iff (shares : Option Counter) (hn : n < 2 ^ 32 - 1) :
    (sharesBound cpus shares).toNat ≤ n ↔ cpus.toNat ≤ n ∨ SharesWithin shares n := by
  unfold sharesBound SharesWithin
  cases hshares : positive? shares with
  | none =>
      refine (or_iff_left ?_).symm
      rintro ⟨s, hs, hpos, -⟩
      exact absurd hshares (positive?_ne_none hs hpos)
  | some s =>
      obtain ⟨rfl, hpos⟩ := positive?_eq_some_iff.1 hshares
      have hunit : (UInt64.ofNat sharesPerCpu).toNat = 1024 := rfl
      rw [UInt32.toNat_min, min_le_iff, unitsFor_le_iff (by decide) hn, hunit, Nat.mul_comm n]
      refine or_congr_right ⟨fun hle => ⟨s, rfl, hpos, hle⟩, ?_⟩
      rintro ⟨_, ⟨rfl⟩, -, hle⟩
      exact hle

theorem quotaBound_le_iff {quota : Counter} (hquota : 0 < quota) (period : Option Counter)
    (hn : n < 2 ^ 32 - 1) : (quotaBound cpus quota period).toNat ≤ n ↔
      cpus.toNat ≤ n ∨ QuotaWithin (some quota) period n := by
  unfold quotaBound QuotaWithin
  cases hperiod : positive? period with
  | none =>
      refine (or_iff_left ?_).symm
      rintro ⟨q, p, -, hp, -, hpos, -⟩
      exact absurd hperiod (positive?_ne_none hp hpos)
  | some p =>
      obtain ⟨rfl, hpos⟩ := positive?_eq_some_iff.1 hperiod
      rw [UInt32.toNat_min, min_le_iff, unitsFor_le_iff hpos hn]
      refine or_congr_right ⟨fun hle => ⟨quota, p, rfl, rfl, hquota, hpos, hle⟩, ?_⟩
      rintro ⟨_, _, ⟨rfl⟩, ⟨rfl⟩, -, -, hle⟩
      exact hle

end Monitor

theorem not_quotaWithin {quota : Option Counter} (h : positive? quota = none)
    (period : Option Counter) (n : Nat) : ¬QuotaWithin quota period n := by
  rintro ⟨q, p, hq, -, hpos, -⟩
  exact absurd h (positive?_ne_none hq hpos)

/-- The set counts unless it is empty, also where its size does not fit 32 bits. -/
theorem CpuReport.baseCpus_le_iff (report : CpuReport α) (c : ContainerReport) {n : Nat}
    (hn : n < 2 ^ 32 - 1) :
    (if 0 < count32 c.cpuSet.length then count32 c.cpuSet.length
      else report.onlineCpus.getD 1).toNat ≤ n ↔ report.baseCpus c ≤ n := by
  have hpos : 0 < count32 c.cpuSet.length ↔ c.cpuSet ≠ [] := by
    rw [UInt32.lt_iff_toNat_lt, toNat_count32, UInt32.toNat_zero, ← List.length_pos_iff]
    omega
  unfold baseCpus
  by_cases hset : c.cpuSet = []
  · rw [if_neg (mt hpos.1 (not_not_intro hset)), if_pos hset]
  · rw [if_pos (hpos.2 hset), if_neg hset, count32_le_iff hn]

/-- One bound at or below `n` is enough. -/
theorem CpuReport.processors_le_iff {report : CpuReport α} {c : ContainerReport}
    (hr : report.container = some c) {n : Nat} (hpos : 1 ≤ n) (hn : n < 2 ^ 32 - 1) :
    report.processors.toNat ≤ n ↔
      report.baseCpus c ≤ n ∨ SharesWithin c.shares n ∨ QuotaWithin c.quota c.period n := by
  unfold processors ContainerReport.processors
  rw [hr]
  dsimp only
  rw [← or_assoc, ← report.baseCpus_le_iff c hn, ← Monitor.sharesBound_le_iff c.shares hn]
  cases hquota : positive? c.quota with
  | none =>
      dsimp only
      rw [max_one_le_iff hpos]
      exact (or_iff_left (not_quotaWithin hquota c.period n)).symm
  | some q =>
      obtain ⟨hq, hqpos⟩ := positive?_eq_some_iff.1 hquota
      dsimp only
      rw [max_one_le_iff hpos, Monitor.quotaBound_le_iff hqpos c.period hn, hq]

theorem CpuReport.one_le_processors (report : CpuReport α) : 1 ≤ report.processors := by
  unfold processors
  cases report.container with
  | none => exact Monitor.one_le_max _
  | some c =>
      dsimp only [ContainerReport.processors]
      cases positive? c.quota with
      | none => exact Monitor.one_le_max _
      | some quota => exact Monitor.one_le_max _

/-- The first of two limits is at most the second. One that is missing or zero limits nothing, so it
stands above all others. -/
def LimitLE (a b : Option Counter) : Prop :=
  ∀ limit : Counter, b = some limit → 0 < limit → ∃ lower, a = some lower ∧ 0 < lower ∧
    lower ≤ limit

/-- The first of two containers gets no more processors by any of its bounds. A period shares out
the quota, so a longer one is the tighter; a missing one counts as zero, for it bounds nothing. -/
structure CpuReport.Tighter (report report' : CpuReport α) (c c' : ContainerReport) : Prop where
  base : report.baseCpus c ≤ report'.baseCpus c'
  shares : LimitLE c.shares c'.shares
  quota : LimitLE c.quota c'.quota
  period : c'.period.getD 0 ≤ c.period.getD 0

theorem SharesWithin.of_limitLE {shares shares' : Option Counter} (h : LimitLE shares shares')
    {n : Nat} (hwithin : SharesWithin shares' n) : SharesWithin shares n := by
  obtain ⟨s', hs', hpos', hle'⟩ := hwithin
  obtain ⟨s, hs, hpos, hle⟩ := h s' hs' hpos'
  exact ⟨s, hs, hpos, Nat.le_trans (UInt64.le_iff_toNat_le.1 hle) hle'⟩

theorem QuotaWithin.of_limitLE {quota quota' period period' : Option Counter}
    (hquota : LimitLE quota quota') (hperiod : period'.getD 0 ≤ period.getD 0) {n : Nat}
    (hwithin : QuotaWithin quota' period' n) : QuotaWithin quota period n := by
  obtain ⟨q', p', hq', rfl, hqpos', hppos', hle'⟩ := hwithin
  obtain ⟨q, hq, hqpos, hqle⟩ := hquota q' hq' hqpos'
  rw [Option.getD_some] at hperiod
  cases period with
  | none => exact absurd (UInt64.lt_of_lt_of_le hppos' hperiod) (UInt64.lt_irrefl 0)
  | some p =>
      refine ⟨q, p, hq, rfl, hqpos, UInt64.lt_of_lt_of_le hppos' hperiod, ?_⟩
      calc q.toNat ≤ q'.toNat := UInt64.le_iff_toNat_le.1 hqle
        _ ≤ n * p'.toNat := hle'
        _ ≤ n * p.toNat := Nat.mul_le_mul_left n (UInt64.le_iff_toNat_le.1 hperiod)

theorem CpuReport.Tighter.processors_le {report report' : CpuReport α} {c c' : ContainerReport}
    (h : report.Tighter report' c c') (hr : report.container = some c)
    (hr' : report'.container = some c') : report.processors ≤ report'.processors := by
  rw [UInt32.le_iff_toNat_le]
  have hpos := UInt32.le_iff_toNat_le.1 report'.one_le_processors
  have hlast : report.processors.toNat < 2 ^ 32 := report.processors.toNat_lt
  -- At the end of the 32 bits there is nothing above.
  by_cases hn : report'.processors.toNat < 2 ^ 32 - 1
  · rw [processors_le_iff hr hpos hn]
    rcases (processors_le_iff hr' hpos hn).1 (Nat.le_refl _) with hbase | hshares | hquota
    · exact Or.inl (Nat.le_trans h.base hbase)
    · exact Or.inr (Or.inl (hshares.of_limitLE h.shares))
    · exact Or.inr (Or.inr (hquota.of_limitLE h.quota h.period))
  · omega

/-- What the number of processors under a report is. -/
structure ProcessorLaw (report : CpuReport α) (cpus : UInt32) : Prop where
  one_le : 1 ≤ cpus
  le_iff : ∀ {c}, report.container = some c → ∀ n, 1 ≤ n → n < 2 ^ 32 - 1 →
    (cpus.toNat ≤ n ↔
      report.baseCpus c ≤ n ∨ SharesWithin c.shares n ∨ QuotaWithin c.quota c.period n)
  mono : ∀ {c c' : ContainerReport} {report' : CpuReport α} {τ : Type} {m' : Monitor τ α}
    {calm' : τ → Prop}, report.container = some c → report'.container = some c' →
      m'.ReportsProcessors calm' report' → report.Tighter report' c c' →
        ∃ cpus', m'.availableProcessors.Answers calm' cpus' ∧ cpus ≤ cpus'
  uncontained : report.container = none → cpus = max (report.onlineCpus.getD 1) 1

/-- The number of processors is the tightest of the bounds that are set. -/
theorem processors_of_reports {m : Monitor σ α} {calm : σ → Prop} {report : CpuReport α}
    (h : m.ReportsProcessors calm report) :
    ∃ cpus, m.availableProcessors.Answers calm cpus ∧ ProcessorLaw report cpus := by
  refine ⟨report.processors, h.availableProcessors, report.one_le_processors, ?_, ?_, ?_⟩
  · intro c hr n hpos hn
    exact CpuReport.processors_le_iff hr hpos hn
  · intro c c' report' τ m' calm' hr hr' hm' htighter
    exact ⟨report'.processors, hm'.availableProcessors, htighter.processors_le hr hr'⟩
  · intro hr
    rw [CpuReport.processors, hr]

/-- A set of six CPUs, shares of more than six, and the largest quota there is. -/
def widestQuotaReport : CpuReport Rat where
  onlineCpus := some 64
  container := some
    { effectiveCpus := [0, 1, 2, 3, 4, 5], shares := some 6145,
      quota := some 18446744073709551615, period := some 4611686018427387904 }

/-- The quota is one short of four periods. -/
theorem processors_of_reports_widestQuota :
    ∃ s', (Scenario.monitor true).availableProcessors (widestQuotaReport.scenario []) =
      .ok 4 s' := by
  obtain ⟨cpus, hanswers, hlaw⟩ :=
    processors_of_reports (widestQuotaReport.scenario_reports [] fun _ => rfl).processors
  have hle : cpus.toNat ≤ 4 := (hlaw.le_iff rfl 4 (by decide) (by decide)).2
    (Or.inr (Or.inr ⟨_, _, rfl, rfl, by decide, by decide, by decide⟩))
  have hgt : ¬cpus.toNat ≤ 3 := by
    rw [hlaw.le_iff rfl 3 (by decide) (by decide)]
    rintro (hbase | ⟨_, ⟨rfl⟩, -, hshares⟩ | ⟨_, _, ⟨rfl⟩, ⟨rfl⟩, -, -, hquota⟩)
    · exact absurd hbase (by decide)
    · exact absurd hshares (by decide)
    · exact absurd hquota (by decide)
  have hfour : cpus = 4 := by
    rw [← UInt32.toNat_inj]
    have hvalue : (4 : UInt32).toNat = 4 := rfl
    omega
  obtain ⟨cpus', s', hrun, rfl, -⟩ := hanswers.exists_ok rfl
  exact ⟨s', hfour ▸ hrun⟩

end ResourceMetrics
