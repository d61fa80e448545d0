import ResourceMetrics.Snapshot
import ResourceMetrics.Proofs.CpuReport

/-! The load of a monitor over whole runs. A call that the quota or the shares decide feeds a pair
of samples to the history and is measured against the pair that the last such call fed, however
many calls of other kinds lie in between. All other calls leave the history alone. -/

namespace ResourceMetrics

variable {σ α : Type}

/-- Not set; zero counts as that. -/
def Inactive (n : Option Counter) : Prop := n = none ∨ n = some 0

/-- What becomes of a pair of samples, given the pair that is stored: it is stored in turn, and
answers how much of the total was used since. -/
structure Measured [LoadScale α] (last : LoadHistory) (usage total : Option Counter)
    (answer : Option α) (next : LoadHistory) : Prop where
  stored : next = ⟨usage.getD 0, total.getD 0⟩
  eq_none_iff : answer = none ↔ usage = none ∨ total = none ∨ total = some 0
  stalled : ∀ {u t : Counter}, usage = some u → total = some t → 0 < t →
    u ≤ last.usage ∨ t ≤ last.total → answer = some Load.zero
  grown : ∀ {u t : Counter}, usage = some u → total = some t →
    last.usage < u → last.total < t →
      answer = some (Load.clamp (LoadScale.ofNat (u.toNat - last.usage.toNat) /
        LoadScale.ofNat (t.toNat - last.total.toNat)))

namespace LoadHistory

variable [LoadScale α]

theorem load?_eq_none_iff (last : LoadHistory) (usage total : Option Counter) :
    (last.load? usage total : Option α) = none ↔
      usage = none ∨ total = none ∨ total = some 0 := by
  unfold load?
  cases usage with
  | none => exact iff_of_true rfl (Or.inl rfl)
  | some u =>
      simp only [bind, pure, Option.bind_some, Option.bind_eq_none_iff, reduceCtorEq, false_or]
      rw [← positive?_eq_none_iff, Option.eq_none_iff_forall_ne_some]

theorem load?_some (last : LoadHistory) (u : Counter) {t : Counter} (ht : 0 < t) :
    (last.load? (some u) (some t) : Option α) =
      some (if last.usage < u ∧ last.total < t then Load.ratio (u - last.usage) (t - last.total)
        else Load.zero) := by
  have hpos : positive? (some t) = some t := positive?_eq_some_iff.2 ⟨rfl, ht⟩
  simp only [load?, hpos, bind, pure, Option.bind_some]

theorem measured (last : LoadHistory) (usage total : Option Counter) :
    Measured last usage total (last.load? usage total : Option α) (.ofSamples usage total) where
  stored := rfl
  eq_none_iff := last.load?_eq_none_iff usage total
  stalled := by
    rintro u t rfl rfl ht hle
    rw [load?_some last u ht, if_neg]
    rintro ⟨hu, htotal⟩
    rcases hle with hle | hle
    · exact UInt64.not_lt.2 hle hu
    · exact UInt64.not_lt.2 hle htotal
  grown := by
    rintro u t rfl rfl hu ht
    have hpos : 0 < t := UInt64.lt_of_le_of_lt (UInt64.zero_le) ht
    rw [load?_some last u hpos, if_pos ⟨hu, ht⟩, Load.ratio,
      UInt64.toNat_sub_of_le _ _ (UInt64.le_of_lt hu),
      UInt64.toNat_sub_of_le _ _ (UInt64.le_of_lt ht)]

end LoadHistory

/-- What a call of the load answers under a report, and the history that it leaves. -/
structure LoadLaw [LoadScale α] (last : LoadHistory) (report : CpuReport α) (answer : Option α)
    (next : LoadHistory) : Prop where
  quota : ∀ {c q}, report.container = some c → c.quota = some q → 0 < q →
    ∃ total : Option Counter,
      (∀ t, total = some t ↔
        ∃ p, c.elapsedPeriods = some p ∧ t.toNat = q.toNat * p.toNat * 1000) ∧
      Measured last c.cpuUsage total answer next
  shares : ∀ {c k}, report.container = some c → Inactive c.quota → c.shares = some k → 0 < k →
    ∃ total : Option Counter,
      (∀ t, total = some t ↔ ∃ time n, report.totalTime = some time ∧
        report.onlineCpus = some n ∧ 0 < n ∧
          t.toNat = time.toNat * (min report.processors n).toNat / n.toNat) ∧
      Measured last c.cpuUsage total answer next
  host : (∀ c, report.container = some c →
      Inactive c.quota ∧ Inactive c.shares ∧ report.Covered c) →
    next = last ∧ answer = report.load
  cpuSet : ∀ {c}, report.container = some c → Inactive c.quota → Inactive c.shares →
    ¬report.Covered c →
      next = last ∧ MeanOf report.cpuLoad c.cpuSet answer

namespace LoadLaw

variable [LoadScale α] {last : LoadHistory} {report : CpuReport α} {c : ContainerReport}

theorem of_quota {q : Counter} (hr : report.container = some c) (hq : positive? c.quota = some q) :
    LoadLaw last report (last.load? c.cpuUsage (Monitor.grantedTime q c.elapsedPeriods))
      (.ofSamples c.cpuUsage (Monitor.grantedTime q c.elapsedPeriods)) := by
  have hactive : ¬Inactive c.quota := by
    rw [Inactive, ← positive?_eq_none_iff, hq]
    exact Option.some_ne_none q
  refine ⟨?_, ?_, ?_, ?_⟩
  · intro c' q' hr' hq' hpos
    obtain rfl := Option.some.inj (hr.symm.trans hr')
    obtain rfl := Option.some.inj (hq.symm.trans (positive?_eq_some_iff.2 ⟨hq', hpos⟩))
    exact ⟨_, fun t => Monitor.grantedTime_eq_some_iff, last.measured _ _⟩
  · intro c' k hr' hinactive
    obtain rfl := Option.some.inj (hr.symm.trans hr')
    exact absurd hinactive hactive
  · intro hall
    exact absurd (hall c hr).1 hactive
  · intro c' hr' hinactive
    obtain rfl := Option.some.inj (hr.symm.trans hr')
    exact absurd hinactive hactive

theorem of_shares {k : Counter} (hr : report.container = some c) (hq : positive? c.quota = none)
    (hk : positive? c.shares = some k) :
    LoadLaw last report (last.load? c.cpuUsage report.capacity)
      (.ofSamples c.cpuUsage report.capacity) := by
  have hactive : ¬Inactive c.shares := by
    rw [Inactive, ← positive?_eq_none_iff, hk]
    exact Option.some_ne_none k
  refine ⟨?_, ?_, ?_, ?_⟩
  · intro c' q' hr' hq' hpos
    obtain rfl := Option.some.inj (hr.symm.trans hr')
    exact absurd hq (positive?_ne_none hq' hpos)
  · intro c' k' hr' _ _ _
    obtain rfl := Option.some.inj (hr.symm.trans hr')
    exact ⟨_, fun t => CpuReport.capacity_eq_some_iff, last.measured _ _⟩
  · intro hall
    exact absurd (hall c hr).2.1 hactive
  · intro c' hr' _ hinactive
    obtain rfl := Option.some.inj (hr.symm.trans hr')
    exact absurd hinactive hactive

/-- Without samples only the last two clauses are left. -/
theorem of_unfed {answer : Option α}
    (hfree : ∀ c, report.container = some c → Inactive c.quota ∧ Inactive c.shares)
    (hhost : (∀ c, report.container = some c → report.Covered c) → answer = report.load)
    (hset : ∀ {c}, report.container = some c → ¬report.Covered c →
      MeanOf report.cpuLoad c.cpuSet answer) :
    LoadLaw last report answer last := by
  have hpassive {n : Option Counter} {k : Counter} (hn : n = some k) (hk : 0 < k) :
      ¬Inactive n := by
    rw [Inactive, ← positive?_eq_none_iff]
    exact positive?_ne_none hn hk
  refine ⟨?_, ?_, ?_, ?_⟩
  · intro c q hr hq hpos
    exact absurd (hfree c hr).1 (hpassive hq hpos)
  · intro c k hr _ hk hpos
    exact absurd (hfree c hr).2 (hpassive hk hpos)
  · intro hall
    exact ⟨rfl, hhost fun c hr => (hall c hr).2.2⟩
  · intro c hr _ _ hcovered
    exact ⟨rfl, hset hr hcovered⟩

end LoadLaw

/-- The history once samples are fed to it; it stays as it is if none are. -/
def LoadHistory.fed (last : LoadHistory) : Option (Option Counter × Option Counter) → LoadHistory
  | some (usage, total) => .ofSamples usage total
  | none => last

/-- The samples that a call feeds to the history, if it does. -/
def CpuReport.samples (report : CpuReport α) : Option (Option Counter × Option Counter) :=
  report.container.bind fun c =>
    match positive? c.quota with
    | some quota => some (c.cpuUsage, Monitor.grantedTime quota c.elapsedPeriods)
    | none => (positive? c.shares).map fun _ => (c.cpuUsage, report.capacity)

namespace Monitor

variable [LoadScale α] {m : Monitor σ α} {calm : σ → Prop} {report : CpuReport α}

theorem advance_triple {last : LoadHistory} {usage total : Option Counter}
    {post : Option α → Session σ → Prop}
    (h : ∀ s, s.history = .ofSamples usage total → post (last.load? usage total) s) :
    Reading.Triple False (Reading.During calm last) (advance usage total) post := by
  rintro s ⟨rfl, _⟩
  exact h _ rfl

/-- A call of the load under a report, whatever samples are stored before it. -/
theorem Reports.load_triple (h : m.Reports calm report) (last : LoadHistory) :
    Reading.Triple False (Reading.During calm last) m.load fun answer s =>
      s.history = last.fed report.samples ∧ LoadLaw last report answer s.history := by
  unfold Monitor.load CpuReport.samples
  rcases h.container_cases with ⟨hm, hr⟩ | ⟨container, c, hm, hr, hc⟩
  · rw [hm, hr]
    rintro s ⟨rfl, hs⟩
    obtain ⟨source, hload⟩ := h.load s.source hs
    dsimp only
    rw [Reading.inSession_ok hload]
    refine ⟨rfl, LoadLaw.of_unfed ?_ ?_ ?_⟩
    · intro c hc
      rw [hr] at hc
      cases hc
    · exact fun _ => rfl
    · intro c hc
      rw [hr] at hc
      cases hc
  · rw [hm, hr]
    refine (hc.quota.inSession last).bind_triple ?_
    dsimp only [Option.bind_some]
    cases hq : positive? c.quota with
    | some q =>
        refine (hc.cpuUsage.inSession last).bind_triple
          ((hc.elapsedPeriods.inSession last).bind_triple (advance_triple ?_))
        intro s hs
        rw [hs]
        exact ⟨rfl, LoadLaw.of_quota hr hq⟩
    | none =>
        refine (hc.shares.inSession last).bind_triple ?_
        cases hk : positive? c.shares with
        | some k =>
            refine (hc.cpuUsage.inSession last).bind_triple
              ((h.capacity.inSession last).bind_triple (advance_triple ?_))
            intro s hs
            rw [hs]
            exact ⟨rfl, LoadLaw.of_shares hr hq hk⟩
        | none =>
            rintro s ⟨rfl, hs⟩
            obtain ⟨answer, source, hset, hhost, hmean⟩ :=
              (h.cpuSetLoad hc hr).exists_ok hs
            dsimp only
            rw [Reading.inSession_ok hset]
            refine ⟨rfl, LoadLaw.of_unfed ?_ ?_ ?_⟩
            · intro c' hr'
              obtain rfl := Option.some.inj (hr.symm.trans hr')
              exact ⟨positive?_eq_none_iff.1 hq, positive?_eq_none_iff.1 hk⟩
            · exact fun hall => hhost (hall c hr)
            · intro c' hr' hcovered
              obtain rfl := Option.some.inj (hr.symm.trans hr')
              exact hmean hcovered

end Monitor

/-- The history after calls of the load under reports, the latest first: the samples that were fed
last, zeros if none were. -/
def historyAfter : List (CpuReport α) → LoadHistory
  | [] => {}
  | report :: past => (historyAfter past).fed report.samples

variable [LoadScale α]

/-- The sessions that a run leads to, with what was reported during its calls of the load, the
latest first. Each call comes with the monitor over the sources as they are then, which may have
changed in any way since the call before. -/
inductive Reached : List (CpuReport α) → Session σ → Prop
  | fresh (source : σ) : Reached [] { source }
  | change {past : List (CpuReport α)} {s : Session σ} (source : σ) :
      Reached past s → Reached past { s with source }
  | other {past : List (CpuReport α)} {s : Session σ} (m : Monitor σ α) {metric : Metric} :
      metric ≠ .load → Reached past s → Reached past ((m.read metric).final s)
  | load {past : List (CpuReport α)} {s : Session σ} {m : Monitor σ α} {calm : σ → Prop}
      {report : CpuReport α} : m.Reports calm report → calm s.source →
      Reached past s → Reached (report :: past) ((m.read .load).final s)

/-- Only the load has to do with the history. -/
theorem Monitor.final_read_history (m : Monitor σ α) {metric : Metric} (h : metric ≠ .load)
    (s : Session σ) : ((m.read metric).final s).history = s.history := by
  cases metric with
  | load => exact absurd rfl h
  | containerPresent => rfl
  | _ =>
      simp only [Monitor.read, Monitor.amount, Monitor.reportedProcessLoad, Reading.final_map,
        Reading.final_inSession]

theorem Reached.history_eq {past : List (CpuReport α)} {s : Session σ} (h : Reached past s) :
    s.history = historyAfter past := by
  induction h with
  | fresh source => rfl
  | change source _ ih => exact ih
  | other m hmetric _ ih => rw [m.final_read_history hmetric, ih]
  | @load past s m calm report hm hcalm _ ih =>
      obtain ⟨answer, s', hload, hhistory, _⟩ :=
        (hm.load_triple s.history).exists_ok ⟨rfl, hcalm⟩
      rw [Monitor.read, Reading.final_map, Monitor.reportedLoad, Reading.final_map,
        Reading.final_of_ok hload, hhistory, ih, historyAfter]

/-- A quota of 100 ms in each period. -/
def quotaReport (usage periods : Counter) : CpuReport Rat where
  container := some { quota := some 100000, cpuUsage := some usage, elapsedPeriods := some periods }

/-- No quota and no shares, and a set of one CPU out of two. -/
def pinnedReport : CpuReport Rat where
  cpuLoad cpu := [some (1 / 4)][cpu.toNat]?.join
  onlineCpus := some 2
  container := some { effectiveCpus := [0] }

end ResourceMetrics
