import Mathlib.Algebra.Order.Field.Basic
import Mathlib.Algebra.Order.Field.Rat
import Mathlib.Data.Nat.Cast.Order.Field
import Mathlib.Tactic.Linarith
import ResourceMetrics.Proofs.LoadRun
import ResourceMetrics.Proofs.ProcessorBounds

/-! The capacity that shares of the CPUs stand for: the part of the host's time that the container's
processors make up, rounded down. It is a part of the time because a container gets at least one
processor and is not given more than the host has. Rounding costs less than one tick and never turns
the order of two times around, so between calls with the same processors the stored capacity is not
above the new one. -/

namespace ResourceMetrics

variable {σ α : Type}

theorem mul_div_le_of_le {time part whole : Nat} (h : part ≤ whole) :
    time * part / whole ≤ time :=
  Nat.div_le_of_le_mul <| calc
    time * part ≤ time * whole := Nat.mul_le_mul_left time h
    _ = whole * time := Nat.mul_comm time whole

/-- Each of the two parts is rounded down by less than one, so less than one is left of both. -/
theorem abs_growth_sub_lt_one (time time' part : Nat) {whole : Nat} (h : 0 < whole) :
    |((time' * part / whole : ℕ) - (time * part / whole : ℕ) : ℚ) -
      (time' - time) * part / whole| < 1 := by
  have hwhole : (0 : ℚ) < whole := Nat.cast_pos.2 h
  have hfloor (n : Nat) : ((n / whole : ℕ) : ℚ) ≤ n / whole ∧
      (n / whole : ℚ) < (n / whole : ℕ) + 1 := by
    refine ⟨Nat.cast_div_le, ?_⟩
    rw [div_lt_iff₀ hwhole, mul_comm]
    exact_mod_cast Nat.lt_mul_div_succ n h
  have hsplit : ((time' - time) * part / whole : ℚ) =
      (time' * part : ℕ) / whole - (time * part : ℕ) / whole := by
    rw [Nat.cast_mul, Nat.cast_mul, sub_mul, sub_div]
  obtain ⟨hle, hlt⟩ := hfloor (time * part)
  obtain ⟨hle', hlt'⟩ := hfloor (time' * part)
  rw [hsplit, abs_lt]
  constructor
  · linarith
  · linarith

/-- Where the time grows by enough for one tick of the part, the part grows. -/
theorem mul_div_lt_of_le {time time' part whole : Nat} (hwhole : 0 < whole)
    (h : whole ≤ (time' - time) * part) : time * part / whole < time' * part / whole := by
  have hsub : (time' - time) * part = time' * part - time * part := Nat.sub_mul time' time part
  have hsum : time * part + whole ≤ time' * part := by omega
  calc time * part / whole < time * part / whole + 1 := Nat.lt_succ_self _
    _ = (time * part + whole) / whole := (Nat.add_div_right _ hwhole).symm
    _ ≤ time' * part / whole := Nat.div_le_div_right hsum

/-- The time of the host and the processors that the container gets of it, under a report. -/
structure CpuReport.Scales (report : CpuReport α) (time : Counter) (cpus hostCpus : UInt32) :
    Prop where
  totalTime : report.totalTime = some time
  onlineCpus : report.onlineCpus = some hostCpus
  pos : 0 < hostCpus
  cpus_eq : cpus = min report.processors hostCpus

/-- A call of the load under this report goes by the shares and reads this usage. -/
structure CpuReport.GoesByShares (report : CpuReport α) (usage : Option Counter) : Prop where
  container : ∃ c, report.container = some c ∧ Inactive c.quota ∧
    (∃ shares, c.shares = some shares ∧ 0 < shares) ∧ c.cpuUsage = usage

namespace CpuReport.Scales

variable {report earlier : CpuReport α} {time time₀ : Counter} {cpus hostCpus : UInt32}

theorem toNat_cpus (h : report.Scales time cpus hostCpus) :
    cpus.toNat = min report.processors.toNat hostCpus.toNat := by
  rw [h.cpus_eq, UInt32.toNat_min]

theorem cpus_le (h : report.Scales time cpus hostCpus) : cpus ≤ hostCpus := by
  rw [UInt32.le_iff_toNat_le, h.toNat_cpus]
  exact Nat.min_le_right _ _

theorem one_le_cpus (h : report.Scales time cpus hostCpus) : 1 ≤ cpus := by
  have hprocessors := UInt32.le_iff_toNat_le.1 report.one_le_processors
  have hpos := UInt32.lt_iff_toNat_lt.1 h.pos
  rw [UInt32.le_iff_toNat_le, h.toNat_cpus]
  exact Nat.le_min.2 ⟨hprocessors, hpos⟩

/-- The part fits a counter, for the time does. -/
theorem capacity (h : report.Scales time cpus hostCpus) : ∃ c : Counter,
    report.capacity = some c ∧ c.toNat = time.toNat * cpus.toNat / hostCpus.toNat ∧ c ≤ time := by
  have hle : time.toNat * cpus.toNat / hostCpus.toNat ≤ time.toNat :=
    mul_div_le_of_le (UInt32.le_iff_toNat_le.1 h.cpus_le)
  have hvalue : (UInt64.ofNat (time.toNat * cpus.toNat / hostCpus.toNat)).toNat =
      time.toNat * cpus.toNat / hostCpus.toNat :=
    UInt64.toNat_ofNat_of_lt' (Nat.lt_of_le_of_lt hle time.toNat_lt_size)
  refine ⟨_, ?_, hvalue, ?_⟩
  · rw [CpuReport.capacity_eq_some_iff]
    exact ⟨time, hostCpus, h.totalTime, h.onlineCpus, h.pos, by rw [hvalue, h.cpus_eq]⟩
  · rw [UInt64.le_iff_toNat_le, hvalue]
    exact hle

theorem growth (h₀ : earlier.Scales time₀ cpus hostCpus) (h : report.Scales time cpus hostCpus)
    (htime : time₀ ≤ time) : ∃ c₀ c : Counter,
      earlier.capacity = some c₀ ∧ report.capacity = some c ∧ c₀ ≤ c ∧
      |(c.toNat - c₀.toNat : ℚ) - (time.toNat - time₀.toNat) * cpus.toNat / hostCpus.toNat| < 1 ∧
      (hostCpus.toNat ≤ (time.toNat - time₀.toNat) * cpus.toNat → c₀ < c) := by
  obtain ⟨c₀, hc₀, hvalue₀, -⟩ := h₀.capacity
  obtain ⟨c, hc, hvalue, -⟩ := h.capacity
  have hpos := UInt32.lt_iff_toNat_lt.1 h.pos
  have hmono : time₀.toNat * cpus.toNat / hostCpus.toNat ≤
      time.toNat * cpus.toNat / hostCpus.toNat :=
    Nat.div_le_div_right (Nat.mul_le_mul_right _ (UInt64.le_iff_toNat_le.1 htime))
  refine ⟨c₀, c, hc₀, hc, ?_, ?_, fun henough => ?_⟩
  · rw [UInt64.le_iff_toNat_le, hvalue₀, hvalue]
    exact hmono
  · rw [hvalue₀, hvalue]
    exact abs_growth_sub_lt_one _ _ _ hpos
  · rw [UInt64.lt_iff_toNat_lt, hvalue₀, hvalue]
    exact mul_div_lt_of_le hpos henough

end CpuReport.Scales

theorem CpuReport.capacity_ne_none_iff {report : CpuReport α} : report.capacity ≠ none ↔
    report.totalTime ≠ none ∧ ∃ n, report.onlineCpus = some n ∧ 0 < n := by
  constructor
  · intro h
    obtain ⟨c, hc⟩ := Option.ne_none_iff_exists'.1 h
    obtain ⟨time, n, htime, hn, hpos, -⟩ := CpuReport.capacity_eq_some_iff.1 hc
    exact ⟨Option.ne_none_iff_exists'.2 ⟨time, htime⟩, n, hn, hpos⟩
  · rintro ⟨htime, n, hn, hpos⟩
    obtain ⟨time, htime⟩ := Option.ne_none_iff_exists'.1 htime
    have hscales : report.Scales time (min report.processors n) n := ⟨htime, hn, hpos, rfl⟩
    obtain ⟨c, hc, -⟩ := hscales.capacity
    rw [hc]
    exact Option.some_ne_none c

theorem CpuReport.GoesByShares.samples {report : CpuReport α} {usage : Option Counter}
    (h : report.GoesByShares usage) : report.samples = some (usage, report.capacity) := by
  obtain ⟨c, hr, hquota, ⟨shares, hshares, hpos⟩, rfl⟩ := h.container
  unfold CpuReport.samples
  rw [hr, Option.bind_some, positive?_eq_none_iff.2 hquota]
  dsimp only
  rw [positive?_eq_some_iff.2 ⟨hshares, hpos⟩, Option.map_some]

section Calls

variable [LoadScale α]

/-- After a call by the shares the next one measures its capacity against that of the first. -/
theorem Monitor.Reports.load_by_shares {past : List (CpuReport α)} {earlier report : CpuReport α}
    {m : Monitor σ α} {calm : σ → Prop} {s : Session σ} {usage₀ usage : Option Counter}
    (hm : m.Reports calm report) (hs : Reached (earlier :: past) s) (hcalm : calm s.source)
    (h₀ : earlier.GoesByShares usage₀) (h : report.GoesByShares usage) :
    s.history = .ofSamples usage₀ earlier.capacity ∧ ∃ answer s', m.load s = .ok answer s' ∧
      Measured s.history usage report.capacity answer s'.history := by
  obtain ⟨answer, s', hload, -, hlaw⟩ := (hm.load_triple s.history).exists_ok ⟨rfl, hcalm⟩
  obtain ⟨c, hr, hquota, ⟨shares, hshares, hpos⟩, rfl⟩ := h.container
  obtain ⟨total, htotal, hmeasured⟩ := hlaw.shares hr hquota hshares hpos
  have hcapacity : total = report.capacity := by
    ext t
    rw [htotal, CpuReport.capacity_eq_some_iff]
  refine ⟨?_, answer, s', hload, hcapacity ▸ hmeasured⟩
  rw [hs.history_eq, historyAfter, h₀.samples]
  rfl

/-- The capacity under a report, and what becomes of it in a call of the load that follows another
one with the same processors. -/
structure CapacityLaw (m : Monitor σ α) (calm : σ → Prop) (report : CpuReport α) : Prop where
  processors : m.availableProcessors.Answers calm report.processors
  capacity : m.capacity.Answers calm report.capacity
  available_iff : report.capacity ≠ none ↔
    report.totalTime ≠ none ∧ ∃ n, report.onlineCpus = some n ∧ 0 < n
  scaled : ∀ {t k n}, report.Scales t k n → 1 ≤ k ∧ k ≤ n ∧
    ∃ c, report.capacity = some c ∧ c.toNat = t.toNat * k.toNat / n.toNat ∧ c ≤ t
  growth : ∀ {earlier : CpuReport α} {t₀ t k n}, earlier.Scales t₀ k n → report.Scales t k n →
    t₀ ≤ t → ∃ c₀ c, earlier.capacity = some c₀ ∧ report.capacity = some c ∧ c₀ ≤ c ∧
      |(c.toNat - c₀.toNat : ℚ) - (t.toNat - t₀.toNat) * k.toNat / n.toNat| < 1
  noReset : ∀ {past : List (CpuReport α)} {earlier : CpuReport α} {s : Session σ} {u₀ u}
    {t₀ t k n}, Reached (earlier :: past) s → m.Reports calm report → calm s.source →
      earlier.GoesByShares u₀ → report.GoesByShares u →
      earlier.Scales t₀ k n → report.Scales t k n → t₀ ≤ t →
        ∃ c answer s', earlier.capacity = some s.history.total ∧ report.capacity = some c ∧
          s.history.total ≤ c ∧ m.load s = .ok answer s' ∧
          Measured s.history u (some c) answer s'.history ∧
          (n.toNat ≤ (t.toNat - t₀.toNat) * k.toNat → s.history.total < c)

/-- The capacity is the container's part of the host's time, and two calls by the shares never see
it go back while the time does not. -/
theorem capacity_of_reports {m : Monitor σ α} {calm : σ → Prop} {report : CpuReport α}
    (h : m.ReportsProcessors calm report)
    (htime : m.host.totalTime.Answers calm report.totalTime) : CapacityLaw m calm report where
  processors := h.availableProcessors
  capacity := h.capacity htime
  available_iff := CpuReport.capacity_ne_none_iff
  scaled hscales := ⟨hscales.one_le_cpus, hscales.cpus_le, hscales.capacity⟩
  growth h₀ h hle := by
    obtain ⟨c₀, c, hc₀, hc, hmono, hgrowth, -⟩ := h₀.growth h hle
    exact ⟨c₀, c, hc₀, hc, hmono, hgrowth⟩
  noReset {past earlier s u₀ u t₀ t k n} hs hm hcalm hby₀ hby hscales₀ hscales hle := by
    obtain ⟨c₀, c, hc₀, hc, hmono, -, henough⟩ := hscales₀.growth hscales hle
    obtain ⟨hhistory, answer, s', hload, hmeasured⟩ := hm.load_by_shares hs hcalm hby₀ hby
    have hstored : s.history.total = c₀ := by
      rw [hhistory, hc₀]
      rfl
    rw [hc] at hmeasured
    rw [hstored]
    exact ⟨c, answer, s', hc₀, hc, hmono, hload, hmeasured, henough⟩

end Calls

/-- Shares of two CPUs on a host of three. -/
def twoThirdsReport (usage time : Counter) : CpuReport Rat where
  totalTime := some time
  onlineCpus := some 3
  container := some { shares := some 2048, cpuUsage := some usage }

theorem twoThirdsReport_reports (usage time : Counter) :
    (Scenario.monitor true).Reports (· = (twoThirdsReport usage time).scenario [])
      (twoThirdsReport usage time) :=
  (twoThirdsReport usage time).scenario_reports [] fun _ => rfl

/-- Of ten ticks the container's part is seven, for it is rounded down from thirteen and a third and
from six and two thirds. -/
theorem capacity_of_reports_twoThirds :
    ∃ s' : Session (Scenario Rat),
      (Scenario.monitor true).load ⟨⟨100, 6⟩, (twoThirdsReport 103 20).scenario []⟩ =
        .ok (some (3 / 7)) s' ∧ s'.history = ⟨103, 13⟩ := by
  have hrun : Reached [twoThirdsReport 100 10]
      (⟨⟨100, 6⟩, (twoThirdsReport 103 20).scenario []⟩ : Session (Scenario Rat)) :=
    .change _ (.load (twoThirdsReport_reports 100 10) rfl
      (.fresh ((twoThirdsReport 100 10).scenario [])))
  have hby (usage time : Counter) : (twoThirdsReport usage time).GoesByShares (some usage) :=
    ⟨_, rfl, Or.inl rfl, ⟨2048, rfl, by decide⟩, rfl⟩
  have hscales (usage time : Counter) : (twoThirdsReport usage time).Scales time 2 3 :=
    ⟨rfl, rfl, by decide, rfl⟩
  have hm := twoThirdsReport_reports 103 20
  have hlaw := capacity_of_reports hm.processors hm.totalTime
  obtain ⟨-, -, c', hc', hvalue, -⟩ := hlaw.scaled (hscales 103 20)
  obtain ⟨c, answer, s', -, hc, -, hload, hmeasured, hgrown⟩ := hlaw.noReset hrun hm rfl
    (hby 100 10) (hby 103 20) (hscales 100 10) (hscales 103 20) (by decide)
  have hthirteen : c = 13 := by
    rw [← UInt64.toNat_inj, Option.some.inj (hc.symm.trans hc'), hvalue]
    decide
  have hsome := hmeasured.grown rfl rfl (by decide) (hgrown (by decide))
  have hload' : Load.clamp (LoadScale.ofNat 3 / LoadScale.ofNat 7) = (3 / 7 : Rat) := by
    decide +kernel
  refine ⟨s', ?_, ?_⟩
  · refine hload.trans ?_
    rw [hsome, hthirteen]
    exact congrArg (fun x => EStateM.Result.ok (some x) s') hload'
  · rw [hmeasured.stored, hthirteen]
    rfl

end ResourceMetrics
