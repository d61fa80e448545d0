import ResourceMetrics.Scripted
import ResourceMetrics.MonitorCpu
import ResourceMetrics.Proofs.Reading

/-! What the sources of a monitor answer about CPUs during one call, and what the monitor makes of
it. Counters, limits and sets are stable. A load is not: to ask for it moves its window, so all that
is said of one is what it answers the first time. -/

namespace ResourceMetrics

variable {σ α : Type}

/-- The answers of a container during a call. -/
structure ContainerReport where
  quota : Option Counter := none
  period : Option Counter := none
  elapsedPeriods : Option Counter := none
  shares : Option Counter := none
  cpuUsage : Option Counter := none
  configuredCpus : List CpuIndex := []
  effectiveCpus : List CpuIndex := []

/-- The answers of a host, and of a container if there is one, during a call. -/
structure CpuReport (α : Type) where
  load : Option α := none
  cpuLoad : CpuIndex → Option α := fun _ => none
  totalTime : Option Counter := none
  onlineCpus : Option UInt32 := none
  container : Option ContainerReport := none

structure ContainerSource.Reports (container : ContainerSource σ) (calm : σ → Prop)
    (report : ContainerReport) : Prop where
  quota : container.quota.Answers calm report.quota
  period : container.period.Answers calm report.period
  elapsedPeriods : container.elapsedPeriods.Answers calm report.elapsedPeriods
  shares : container.shares.Answers calm report.shares
  cpuUsage : container.cpuUsage.Answers calm report.cpuUsage
  configuredCpus : container.configuredCpus.Answers calm report.configuredCpus
  effectiveCpus : container.effectiveCpus.Answers calm report.effectiveCpus

/-- Asked in order, each CPU answers its load. What those after a missing load would answer is left
open, for they are not asked. -/
def HostSource.LoadsFrom (host : HostSource σ α) (loads : CpuIndex → Option α) :
    List CpuIndex → σ → Prop
  | [], _ => True
  | cpu :: rest, s => ∃ s', host.cpuLoad cpu s = .ok (loads cpu) s' ∧
      (loads cpu ≠ none → host.LoadsFrom loads rest s')

/-- The CPUs of the container: the effective set, or the configured one if that is empty. -/
def ContainerReport.cpuSet (report : ContainerReport) : List CpuIndex :=
  if report.effectiveCpus = [] then report.configuredCpus else report.effectiveCpus

/-- The CPU set is as large as the number of CPUs online. -/
def CpuReport.Covered (report : CpuReport α) (c : ContainerReport) : Prop :=
  report.onlineCpus.map UInt32.toNat = some c.cpuSet.length

/-- In the calm states the sources of a monitor answer as reported. -/
structure Monitor.Reports (m : Monitor σ α) (calm : σ → Prop) (report : CpuReport α) : Prop where
  container : Option.Rel (fun c r => c.Reports calm r) m.container report.container
  totalTime : m.host.totalTime.Answers calm report.totalTime
  onlineCpus : m.host.onlineCpus.Answers calm report.onlineCpus
  load : ∀ s, calm s → ∃ s', m.host.load s = .ok report.load s'
  cpuLoads : ∀ c ∈ report.container, ∀ s, calm s → m.host.LoadsFrom report.cpuLoad c.cpuSet s

/-- What bounds the processors of a container is as reported, whatever becomes of other readings. -/
structure ContainerSource.ReportsBounds (container : ContainerSource σ) (calm : σ → Prop)
    (report : ContainerReport) : Prop where
  effectiveCpus : container.effectiveCpus.Answers calm report.effectiveCpus
  configuredCpus : container.configuredCpus.Answers calm report.configuredCpus
  shares : container.shares.Answers calm report.shares
  quota : container.quota.Answers calm report.quota
  period : container.period.Answers calm report.period

/-- What the number of processors is made of is as reported. -/
structure Monitor.ReportsProcessors (m : Monitor σ α) (calm : σ → Prop) (report : CpuReport α) :
    Prop where
  onlineCpus : m.host.onlineCpus.Answers calm report.onlineCpus
  container : Option.Rel (fun c r => c.ReportsBounds calm r) m.container report.container

theorem ContainerSource.Reports.bounds {container : ContainerSource σ} {calm : σ → Prop}
    {report : ContainerReport} (h : container.Reports calm report) :
    container.ReportsBounds calm report :=
  ⟨h.effectiveCpus, h.configuredCpus, h.shares, h.quota, h.period⟩

theorem ContainerSource.ReportsBounds.cpuSet {container : ContainerSource σ} {calm : σ → Prop}
    {report : ContainerReport} (h : container.ReportsBounds calm report) :
    container.cpuSet.Answers calm report.cpuSet := by
  refine h.effectiveCpus.bind ?_
  by_cases hempty : report.effectiveCpus = []
  · simpa only [ContainerReport.cpuSet, hempty, List.isEmpty_nil, if_true] using h.configuredCpus
  · simpa only [ContainerReport.cpuSet, hempty, List.isEmpty_iff, if_false] using .pure _

/-- The number of processors of the container on a host with the given number. -/
def ContainerReport.processors (report : ContainerReport) (hostCpus : UInt32) : UInt32 :=
  let size := count32 report.cpuSet.length
  let bounded := Monitor.sharesBound (if 0 < size then size else hostCpus) report.shares
  match positive? report.quota with
  | none => max bounded 1
  | some quota => max (Monitor.quotaBound bounded quota report.period) 1

namespace CpuReport

/-- The number of processors under a report. -/
def processors (report : CpuReport α) : UInt32 :=
  match report.container with
  | none => max (report.onlineCpus.getD 1) 1
  | some c => c.processors (report.onlineCpus.getD 1)

/-- The host's time, scaled to the container's part of the processors. -/
def capacity (report : CpuReport α) : Option Counter := do
  let time ← report.totalTime
  let hostCpus ← report.onlineCpus.filter (0 < ·)
  Monitor.scaleDown time (min report.processors hostCpus) hostCpus

end CpuReport

namespace Monitor

variable {m : Monitor σ α} {calm : σ → Prop} {report : CpuReport α}

theorem ReportsProcessors.availableProcessors (h : m.ReportsProcessors calm report) :
    m.availableProcessors.Answers calm report.processors := by
  refine h.onlineCpus.bind ?_
  unfold CpuReport.processors
  rcases option_rel_cases h.container with ⟨hm, hr⟩ | ⟨container, c, hm, hr, hc⟩
  · rw [hm, hr]
    exact .pure _
  · rw [hm, hr]
    refine hc.cpuSet.bind (hc.shares.bind (hc.quota.bind ?_))
    dsimp only [ContainerReport.processors]
    cases positive? c.quota with
    | none => exact .pure _
    | some quota => exact hc.period.bind (.pure _)

theorem ReportsProcessors.capacity (h : m.ReportsProcessors calm report)
    (htime : m.host.totalTime.Answers calm report.totalTime) :
    m.capacity.Answers calm report.capacity := by
  refine htime.bind ?_
  unfold CpuReport.capacity
  cases report.totalTime with
  | none => exact .pure _
  | some time =>
      refine h.onlineCpus.bind ?_
      change Reading.Answers calm _ ((report.onlineCpus.filter (0 < ·)).bind _)
      cases report.onlineCpus.filter (0 < ·) with
      | none => exact .pure _
      | some hostCpus => exact h.availableProcessors.bind (.pure _)

/-- A report is of a container exactly if the monitor has one. -/
theorem Reports.container_cases (h : m.Reports calm report) :
    (m.container = none ∧ report.container = none) ∨
      ∃ container c, m.container = some container ∧ report.container = some c ∧
        container.Reports calm c :=
  option_rel_cases h.container

theorem Reports.processors (h : m.Reports calm report) : m.ReportsProcessors calm report where
  onlineCpus := h.onlineCpus
  container := by
    rcases h.container_cases with ⟨hm, hr⟩ | ⟨container, c, hm, hr, hc⟩
    · rw [hm, hr]
      exact .none
    · rw [hm, hr]
      exact .some hc.bounds

theorem Reports.capacity (h : m.Reports calm report) : m.capacity.Answers calm report.capacity :=
  h.processors.capacity h.totalTime

end Monitor

/-- A quota grants its time in every elapsed period. The product is missing if it does not fit. -/
theorem Monitor.grantedTime_eq_some_iff {quota : Counter} {periods : Option Counter} {t : Counter} :
    Monitor.grantedTime quota periods = some t ↔
      ∃ p, periods = some p ∧ t.toNat = quota.toNat * p.toNat * 1000 := by
  unfold Monitor.grantedTime
  simp only [bind, Option.bind_eq_some_iff, Counter.mul?_eq_some_iff]
  constructor
  · rintro ⟨p, hp, micros, hmicros, ht⟩
    exact ⟨p, hp, by rw [hmicros, ← ht]; rfl⟩
  · rintro ⟨p, hp, ht⟩
    have hlt : quota.toNat * p.toNat < UInt64.size := by
      have := t.toNat_lt_size
      omega
    have hmicros : (UInt64.ofNat (quota.toNat * p.toNat)).toNat = quota.toNat * p.toNat :=
      UInt64.toNat_ofNat_of_lt' hlt
    exact ⟨p, hp, _, hmicros.symm, by rw [hmicros, ht]; rfl⟩

theorem CpuReport.capacity_eq_some_iff {report : CpuReport α} {t : Counter} :
    report.capacity = some t ↔ ∃ time n, report.totalTime = some time ∧
      report.onlineCpus = some n ∧ 0 < n ∧
        t.toNat = time.toNat * (min report.processors n).toNat / n.toNat := by
  unfold CpuReport.capacity Monitor.scaleDown
  simp only [bind, Option.bind_eq_some_iff, Option.filter_eq_some_iff, Counter.ofNat?_eq_some_iff]
  constructor
  · rintro ⟨time, htime, n, ⟨hn, hpos⟩, ht⟩
    exact ⟨time, n, htime, hn, of_decide_eq_true hpos, ht.symm⟩
  · rintro ⟨time, n, htime, hn, hpos, ht⟩
    exact ⟨time, htime, n, ⟨hn, decide_eq_true hpos⟩, ht.symm⟩

/-- What adding the loads of some CPUs to a sum gives: all of them in order, or nothing if one is
missing. -/
structure AddsUp [LoadScale α] (loads : CpuIndex → Option α) (cpus : List CpuIndex) (start : α)
    (sum : Option α) : Prop where
  eq_none_iff : sum = none ↔ ∃ cpu ∈ cpus, loads cpu = none
  eq_some : ∀ xs : List α, cpus.map loads = xs.map some → sum = some (xs.foldl (· + ·) start)

/-- The mean of the loads of some CPUs, taken in order. There is none of an empty set, nor if a load
is missing. -/
structure MeanOf [LoadScale α] (loads : CpuIndex → Option α) (cpus : List CpuIndex)
    (mean : Option α) : Prop where
  eq_none_iff : mean = none ↔ cpus = [] ∨ ∃ cpu ∈ cpus, loads cpu = none
  eq_some : ∀ xs : List α, cpus ≠ [] → cpus.map loads = xs.map some →
    mean = some (xs.foldl (· + ·) Load.zero / LoadScale.ofNat xs.length)

theorem Monitor.sumLoads_of_loadsFrom [LoadScale α] (m : Monitor σ α)
    {loads : CpuIndex → Option α} :
    ∀ {cpus : List CpuIndex} {s : σ} (start : α), m.host.LoadsFrom loads cpus s →
      ∃ sum s', m.sumLoads start cpus s = .ok sum s' ∧ AddsUp loads cpus start sum
  | [], s, start, _ => by
      refine ⟨some start, s, rfl, by simp, ?_⟩
      intro xs hxs
      cases xs with
      | nil => rfl
      | cons x xs => simp at hxs
  | cpu :: rest, s, start, h => by
      obtain ⟨s₁, hcpu, hrest⟩ := h
      cases hload : loads cpu with
      | none =>
          rw [hload] at hcpu
          refine ⟨none, s₁, ?_, ?_, ?_⟩
          · rw [Monitor.sumLoads, Reading.bind_ok hcpu]
            rfl
          · exact iff_of_true rfl ⟨cpu, List.mem_cons_self, hload⟩
          · intro xs hxs
            cases xs with
            | nil => simp at hxs
            | cons x xs => simp [hload] at hxs
      | some load =>
          rw [hload] at hcpu
          obtain ⟨sum, s', hsum, hadds⟩ :=
            m.sumLoads_of_loadsFrom (start + load) (hrest (by simp [hload]))
          refine ⟨sum, s', ?_, ?_, ?_⟩
          · rw [Monitor.sumLoads, Reading.bind_ok hcpu]
            exact hsum
          · rw [hadds.eq_none_iff]
            simp [hload]
          · intro xs hxs
            cases xs with
            | nil => simp at hxs
            | cons x xs =>
                rw [List.map_cons, List.map_cons, List.cons.injEq, hload, Option.some.injEq] at hxs
                obtain ⟨rfl, htail⟩ := hxs
                exact hadds.eq_some xs htail

theorem Monitor.meanLoad_of_loadsFrom [LoadScale α] (m : Monitor σ α)
    {loads : CpuIndex → Option α} {cpus : List CpuIndex} {s : σ}
    (h : m.host.LoadsFrom loads cpus s) :
    ∃ mean s', m.meanLoad cpus s = .ok mean s' ∧ MeanOf loads cpus mean := by
  unfold Monitor.meanLoad
  by_cases hempty : cpus = []
  · subst hempty
    refine ⟨none, s, rfl, iff_of_true rfl (Or.inl rfl), ?_⟩
    intro xs hne
    exact absurd rfl hne
  · obtain ⟨sum, s', hsum, hadds⟩ := m.sumLoads_of_loadsFrom Load.zero h
    simp only [List.isEmpty_iff, if_neg hempty, Reading.bind_ok hsum]
    refine ⟨_, s', rfl, ?_, ?_⟩
    · rw [Option.map_eq_none_iff, hadds.eq_none_iff]
      exact ⟨Or.inr, fun h => h.resolve_left hempty⟩
    · intro xs _ hxs
      have hlength := congrArg List.length hxs
      rw [List.length_map, List.length_map] at hlength
      rw [hadds.eq_some xs hxs, hlength]
      rfl

theorem Monitor.Reports.cpuSetLoad [LoadScale α] {m : Monitor σ α} {calm : σ → Prop}
    {report : CpuReport α} (h : m.Reports calm report) {container : ContainerSource σ}
    {c : ContainerReport} (hc : container.Reports calm c) (hr : report.container = some c) :
    Reading.Triple False calm (m.cpuSetLoad container) fun answer _ =>
      (report.Covered c → answer = report.load) ∧
      (¬report.Covered c → MeanOf report.cpuLoad c.cpuSet answer) := by
  refine hc.bounds.cpuSet.bind_triple (h.onlineCpus.bind_triple ?_)
  by_cases hcovered : report.onlineCpus.map UInt32.toNat = some c.cpuSet.length
  · rw [if_pos hcovered]
    intro s hs
    obtain ⟨s', hload⟩ := h.load s hs
    rw [hload]
    exact ⟨fun _ => rfl, fun hn => absurd hcovered hn⟩
  · rw [if_neg hcovered]
    intro s hs
    obtain ⟨mean, s', hmean, hof⟩ := m.meanLoad_of_loadsFrom (h.cpuLoads c hr s hs)
    rw [hmean]
    exact ⟨fun hp => absurd hp hcovered, fun _ => hof⟩

/-- The scenario in which every reading goes on answering as reported. -/
def CpuReport.scenario (report : CpuReport α) (loads : List (Option α)) : Scenario α where
  host :=
    { load := { standing := report.load }
      cpuLoads := { standing := loads }
      totalTime := { standing := report.totalTime }
      onlineCpus := { standing := report.onlineCpus } }
  container :=
    { quota := { standing := report.container.bind (·.quota) }
      period := { standing := report.container.bind (·.period) }
      elapsedPeriods := { standing := report.container.bind (·.elapsedPeriods) }
      shares := { standing := report.container.bind (·.shares) }
      cpuUsage := { standing := report.container.bind (·.cpuUsage) }
      configuredCpus := { standing := (report.container.map (·.configuredCpus)).getD [] }
      effectiveCpus := { standing := (report.container.map (·.effectiveCpus)).getD [] } }

theorem CpuReport.scenario_loadsFrom (report : CpuReport α) (loads : List (Option α))
    (h : ∀ cpu, report.cpuLoad cpu = loads[cpu.toNat]?.join) (cpus : List CpuIndex) :
    Scenario.hostSource.LoadsFrom report.cpuLoad cpus (report.scenario loads) := by
  induction cpus with
  | nil => trivial
  | cons cpu rest ih =>
      refine ⟨report.scenario loads, ?_, fun _ => ih⟩
      rw [h]
      rfl

/-- Any report is one that sources can give. -/
theorem CpuReport.scenario_reports (report : CpuReport α) (loads : List (Option α))
    (h : ∀ cpu, report.cpuLoad cpu = loads[cpu.toNat]?.join) :
    (Scenario.monitor report.container.isSome).Reports (· = report.scenario loads) report where
  container := by
    unfold Scenario.monitor
    cases hc : report.container with
    | none => exact .none
    | some c =>
        refine .some ⟨?_, ?_, ?_, ?_, ?_, ?_, ?_⟩
        all_goals
          rintro s rfl
          exact ⟨by simp only [CpuReport.scenario, hc]; rfl, rfl⟩
  totalTime := by
    rintro s rfl
    exact ⟨rfl, rfl⟩
  onlineCpus := by
    rintro s rfl
    exact ⟨rfl, rfl⟩
  load := by
    rintro s rfl
    exact ⟨_, rfl⟩
  cpuLoads := by
    rintro c _ s rfl
    exact report.scenario_loadsFrom loads h c.cpuSet

end ResourceMetrics
