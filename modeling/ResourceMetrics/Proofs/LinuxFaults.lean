import ResourceMetrics.Proofs.CheckedArithmetic
import ResourceMetrics.Proofs.LoadMeasure

/-! When a metric over files faults, and what the others make of the state. Nothing guards the
sums of ticks and the product that turns a weight into shares; whether a metric comes to them is
told from the files. The load and the load of the process are the only metrics that have to do
with the state. -/

namespace ResourceMetrics

open Reading

variable {α : Type}

namespace ControlGroup

variable (dir : Path) (tree : FileTree)

/-- A quota is set and is not zero. -/
def QuotaActive : Prop :=
  ∃ max quota, Shows dir tree "cpu.max" CpuMax.read max ∧ max.quota = some quota ∧ 0 < quota

/-- A weight is shown that stands for shares. -/
def WeightActive : Prop :=
  ∃ w, Shows dir tree "cpu.weight" CpuWeight.read w ∧ w.StandsForShares

/-- The product that turns a weight into shares exceeds a counter. -/
def WeightOverflows : Prop :=
  ∃ w, Shows dir tree "cpu.weight" CpuWeight.read w ∧ w.StandsForShares ∧
    2 ^ 64 ≤ 262142 * w.weight.toNat

/-- Some CPU is in the effective or the configured set. -/
def SetShown : Prop :=
  ∃ cpus ≠ [], Shows dir tree "cpuset.cpus.effective" CpuSet.read cpus ∨
    Shows dir tree "cpuset.cpus" CpuSet.read cpus

def quota : Option Counter := (cpuMax? dir tree).bind (·.quota)

/-- The effective set, or the configured one if that is empty. -/
def cpuSet : List CpuIndex :=
  if (cpus dir tree "cpuset.cpus.effective").isEmpty then cpus dir tree "cpuset.cpus"
  else cpus dir tree "cpuset.cpus.effective"

variable {dir tree}

theorem Shows.unique {β : Type} {name : String} {format : Bytes → Except StatError β} {b b' : β}
    (h : Shows dir tree name format b) (h' : Shows dir tree name format b') : b = b' :=
  Except.ok.inj (h.symm.trans h')

theorem quotaActive_iff :
    QuotaActive dir tree ↔ ∃ quota', positive? (quota dir tree) = some quota' := by
  unfold QuotaActive quota cpuMax?
  simp only [positive?_eq_some_iff, Option.bind_eq_some_iff, file?_eq_some_iff]
  constructor
  · rintro ⟨max, quota', hmax, hquota, hpos⟩
    exact ⟨quota', ⟨max, hmax, hquota⟩, hpos⟩
  · rintro ⟨quota', ⟨max, hmax, hquota⟩, hpos⟩
    exact ⟨max, quota', hmax, hquota, hpos⟩

/-- The shares fault, or are above zero, or there are none. -/
theorem shares_cases (dir : Path) (tree : FileTree) :
    (shares dir tree = .error .multiplication ∧ WeightOverflows dir tree) ∨
      ¬WeightOverflows dir tree ∧
        ((∃ k, shares dir tree = .ok (some k) ∧ 0 < k ∧ WeightActive dir tree) ∨
          (shares dir tree = .ok none ∧ ¬WeightActive dir tree)) := by
  unfold shares
  cases hfile : file? tree dir "cpu.weight" CpuWeight.read with
  | none =>
      refine Or.inr ⟨?_, Or.inr ⟨rfl, ?_⟩⟩
      · rintro ⟨w, hshows, -⟩
        exact not_shows_of_file?_eq_none hfile w hshows
      · rintro ⟨w, hshows, -⟩
        exact not_shows_of_file?_eq_none hfile w hshows
  | some w =>
      have hshows := file?_eq_some_iff.1 hfile
      by_cases hw : w.StandsForShares
      · rcases CpuWeight.shares?_cases hw with ⟨hfit, k, hk, hpos, -⟩ | ⟨hover, herror, -⟩
        · refine Or.inr ⟨?_, Or.inl ⟨k, hk, hpos, w, hshows, hw⟩⟩
          rintro ⟨w', hshows', -, hover⟩
          rw [hshows'.unique hshows] at hover
          exact Nat.not_lt.2 hover hfit
        · exact Or.inl ⟨herror, w, hshows, hw, hover⟩
      · refine Or.inr ⟨?_, Or.inr ⟨CpuWeight.shares?_eq_none hw, ?_⟩⟩
        · rintro ⟨w', hshows', hw', -⟩
          exact hw (hshows'.unique hshows ▸ hw')
        · rintro ⟨w', hshows', hw'⟩
          exact hw (hshows'.unique hshows ▸ hw')

theorem cpus_ne_nil_iff {name : String} :
    cpus dir tree name ≠ [] ↔ ∃ set ≠ [], Shows dir tree name CpuSet.read set := by
  unfold cpus
  cases hfile : file? tree dir name CpuSet.read with
  | none =>
      refine iff_of_false (fun h => h rfl) ?_
      rintro ⟨set, -, hshows⟩
      exact not_shows_of_file?_eq_none hfile set hshows
  | some set =>
      have hshows := file?_eq_some_iff.1 hfile
      exact ⟨fun h => ⟨set, h, hshows⟩, fun ⟨_, h, hshows'⟩ => hshows'.unique hshows ▸ h⟩

theorem cpuSet_ne_nil_iff : cpuSet dir tree ≠ [] ↔ SetShown dir tree := by
  have hshown : SetShown dir tree ↔
      cpus dir tree "cpuset.cpus.effective" ≠ [] ∨ cpus dir tree "cpuset.cpus" ≠ [] := by
    rw [cpus_ne_nil_iff, cpus_ne_nil_iff]
    unfold SetShown
    constructor
    · rintro ⟨set, hne, hshows | hshows⟩
      · exact Or.inl ⟨set, hne, hshows⟩
      · exact Or.inr ⟨set, hne, hshows⟩
    · rintro (⟨set, hne, hshows⟩ | ⟨set, hne, hshows⟩)
      · exact ⟨set, hne, Or.inl hshows⟩
      · exact ⟨set, hne, Or.inr hshows⟩
  rw [hshown, cpuSet]
  by_cases hempty : cpus dir tree "cpuset.cpus.effective" = []
  · simp [hempty]
  · simp [hempty]

theorem quota_source {σ : Type} : (source dir tree : ContainerSource σ).quota.inSession =
    (pure (quota dir tree) : Reading (Session σ) (Option Counter)) := rfl

theorem cpuSet_source {σ : Type} :
    (source dir tree : ContainerSource σ).cpuSet = pure (cpuSet dir tree) := by
  unfold ContainerSource.cpuSet cpuSet
  simp only [source, pure_bind]
  split
  · rfl
  · rfl

theorem shares_stateless {σ : Type} :
    (source dir tree : ContainerSource σ).shares.Stateless (WeightOverflows dir tree) := by
  apply Stateless.ofExcept
  rcases shares_cases dir tree with ⟨herror, hover⟩ | ⟨hover, ⟨k, hk, -⟩ | ⟨hnone, -⟩⟩
  · exact iff_of_true ⟨_, herror⟩ hover
  · rw [hk]
    exact iff_of_false nofun hover
  · rw [hnone]
    exact iff_of_false nofun hover

end ControlGroup

/-- The files bring a metric to arithmetic that nothing guards and that exceeds a counter. -/
def Faults (host : HostFiles) (group : Option Path) (tree : FileTree) : Metric → Prop
  | .availableProcessors =>
    match group with
    | none => False
    | some dir => ControlGroup.WeightOverflows dir tree
  | .load =>
    match group with
    | none => host.TicksOverflow tree
    | some dir => ¬ControlGroup.QuotaActive dir tree ∧
      (ControlGroup.WeightOverflows dir tree ∨ host.TicksOverflow tree ∧
        (ControlGroup.WeightActive dir tree ∨ ControlGroup.SetShown dir tree))
  | .processLoad => host.Overflows tree .process
  | .processTime => host.ProcessSumOverflows tree
  | _ => False

/-- The metrics that have to do with the state. -/
def Metric.IsLoad (metric : Metric) : Prop := metric = .load ∨ metric = .processLoad

instance (metric : Metric) : Decidable metric.IsLoad := inferInstanceAs (Decidable (_ ∨ _))

namespace Monitor

variable [LoadScale α] (host : HostFiles) (group : Option Path) (tree : FileTree)

theorem availableProcessors_stateless :
    (linuxMonitor host group tree : Monitor LoadWindows α).availableProcessors.Stateless
      (Faults host group tree .availableProcessors) := by
  cases group with
  | none => exact .pure _
  | some dir =>
      unfold availableProcessors
      simp only [linuxMonitor, HostFiles.source, Option.map_some, ControlGroup.cpuSet_source,
        pure_bind]
      refine ControlGroup.shares_stateless.bind_safe fun shares => ?_
      simp only [ControlGroup.source, pure_bind]
      cases positive? ((ControlGroup.cpuMax? dir tree).bind (·.quota)) with
      | none => exact .pure _
      | some quota => exact .pure _

theorem totalTime_stateless :
    (host.source tree : HostSource LoadWindows α).totalTime.Stateless
      (host.TicksOverflow tree) := by
  apply Stateless.ofExcept
  rw [← host.hostTicks_error_iff tree]
  cases host.hostTicks tree with
  | error overflow => exact iff_of_true ⟨overflow, rfl⟩ ⟨overflow, rfl⟩
  | ok ticks => exact iff_of_false nofun nofun

/-- The host's time is read first, and the weight only if there is a number of CPUs. -/
theorem capacity_stateless {dir : Path} (h : ¬ControlGroup.WeightOverflows dir tree) :
    (linuxMonitor host (some dir) tree : Monitor LoadWindows α).capacity.Stateless
      (host.TicksOverflow tree) := by
  have hcpus := availableProcessors_stateless (α := α) host (some dir) tree
  unfold capacity
  refine (totalTime_stateless host tree).bind_safe fun time => ?_
  cases time with
  | none => exact .pure _
  | some time =>
      simp only [linuxMonitor, HostFiles.source, pure_bind]
      cases Option.filter (0 < ·) (host.cpuCount tree (Path.ofString "online")
          host.systemOnlineCpus) with
      | none => exact .pure _
      | some hostCpus => exact (hcpus.bind fun cpus => .pure _).congr (by simpa [Faults] using h)

theorem processTime_stateless :
    (host.source tree : HostSource LoadWindows α).processTime.Stateless
      (host.ProcessSumOverflows tree) := by
  apply Stateless.ofExcept
  unfold HostFiles.ProcessSumOverflows
  rcases host.processStat_cases tree with ⟨stat, hrun, hstat⟩ | ⟨hrun, hnone⟩
  · have hsum : (∃ overflow, stat.ticks = .error overflow) ↔ _ := Counter.addOrFault_error_iff
    rw [hrun]
    constructor
    · rintro ⟨overflow, herror⟩
      refine ⟨stat, hstat, hsum.1 ?_⟩
      cases hticks : stat.ticks with
      | error overflow => exact ⟨overflow, rfl⟩
      | ok ticks =>
          simp only [hticks] at herror
          cases herror
    · rintro ⟨stat', hstat', hsize⟩
      rw [hstat'.unique hstat] at hsize
      obtain ⟨overflow, hticks⟩ := hsum.2 hsize
      simp only [hticks]
      exact ⟨overflow, rfl⟩
  · rw [hrun]
    refine iff_of_false nofun ?_
    rintro ⟨stat, hstat, -⟩
    exact hnone stat hstat

theorem hostLoad_measures :
    ((host.source tree).load.inSession : Reading (Session LoadWindows) (Option α)).Measures
      (host.TicksOverflow tree) := by
  have hload : (host.source tree).load = (host.load tree .host : Reading LoadWindows (Option α)) :=
    rfl
  have hover : host.TicksOverflow tree ↔ ∃ overflow, host.sample tree .host = .error overflow := by
    rw [host.sample_error_iff tree]
    exact ⟨.host, fun h => by cases h; assumption⟩
  rw [hload, host.load_eq]
  cases hsample : host.sample tree .host with
  | error overflow =>
      exact Measures.of_error.congr (iff_of_true trivial (hover.2 ⟨overflow, hsample⟩))
  | ok sample =>
      rw [hsample] at hover
      exact (Measures.of_measure (.host sample)).congr (iff_of_false id fun h => nomatch hover.1 h)

/-- The sample of each CPU, where the ticks of the host are known. -/
theorem cpuLoad_eq {ticks : Option HostTicks} (h : host.hostTicks tree = .ok ticks)
    (cpu : CpuIndex) : ((host.source tree).cpuLoad cpu : Reading LoadWindows (Option α)) =
      Measure.readWindow (.cpu cpu) (ticks.bind (·.cpu? cpu)) := by
  have hsample : host.sample tree (.cpu cpu) = .ok (ticks.bind (·.cpu? cpu)) := by
    unfold HostFiles.sample
    rw [h]
    cases ticks with
    | none => rfl
    | some ticks => rfl
  change host.load tree (.cpu cpu) = _
  rw [host.load_eq, hsample]
  rfl

theorem sumLoads_eq {ticks : Option HostTicks} (h : host.hostTicks tree = .ok ticks)
    (cpus : List CpuIndex) : ∀ sum : α, (linuxMonitor host group tree).sumLoads sum cpus =
      Measure.readSum (fun cpu => ticks.bind (·.cpu? cpu)) sum cpus := by
  induction cpus with
  | nil => exact fun sum => rfl
  | cons cpu rest ih =>
      intro sum
      change (host.source tree).cpuLoad cpu >>= _ = _
      rw [cpuLoad_eq host tree h]
      refine congrArg (Measure.readWindow _ _ >>= ·) (funext fun load => ?_)
      cases load with
      | none => rfl
      | some load => exact ih (sum + load)

/-- The first CPU of a set comes to the fault of the ticks. -/
theorem meanLoad_of_error {overflow : Overflow} (h : host.hostTicks tree = .error overflow)
    (cpu : CpuIndex) (rest : List CpuIndex) :
    ((linuxMonitor host group tree).meanLoad (cpu :: rest)).inSession =
      (throw overflow : Reading (Session LoadWindows) (Option α)) := by
  have hsample : host.sample tree (.cpu cpu) = .error overflow := by
    unfold HostFiles.sample
    rw [h]
    rfl
  have hload : (host.source tree).cpuLoad cpu =
      (throw overflow : Reading LoadWindows (Option α)) := by
    change host.load tree (.cpu cpu) = _
    rw [host.load_eq, hsample]
    rfl
  change Reading.inSession (((host.source tree).cpuLoad cpu >>= _) >>= _) = _
  rw [hload]
  rfl

theorem meanLoad_eq {ticks : Option HostTicks} (h : host.hostTicks tree = .ok ticks)
    (cpus : List CpuIndex) : (linuxMonitor host group tree).meanLoad cpus =
      (Measure.readMean cpus fun cpu => ticks.bind (·.cpu? cpu) :
        Reading LoadWindows (Option α)) := by
  unfold meanLoad Measure.readMean
  rw [sumLoads_eq host group tree h]

/-- The ticks are not read for an empty set. -/
theorem meanLoad_measures (cpus : List CpuIndex) :
    (((linuxMonitor host group tree).meanLoad cpus).inSession :
        Reading (Session LoadWindows) (Option α)).Measures
      (host.TicksOverflow tree ∧ cpus ≠ []) := by
  have hover := host.hostTicks_error_iff tree
  cases cpus with
  | nil => exact (Measures.of_measure (.host none)).congr (iff_of_false id fun h => h.2 rfl)
  | cons cpu rest =>
      cases hticks : host.hostTicks tree with
      | error overflow =>
          rw [meanLoad_of_error host group tree hticks]
          refine Measures.of_error.congr (iff_of_true trivial ⟨hover.1 ⟨overflow, hticks⟩, ?_⟩)
          exact List.cons_ne_nil cpu rest
      | ok ticks =>
          rw [hticks] at hover
          rw [meanLoad_eq host group tree hticks]
          exact (Measures.of_measure (.mean _ _)).congr
            (iff_of_false id fun h => nomatch hover.2 h.1)

/-- The number of CPUs online is not zero. -/
theorem cpuCount_pos {file : Path} {account n : UInt32}
    (h : host.cpuCount tree file account = some n) : 0 < n := by
  unfold HostFiles.cpuCount count32? at h
  split at h
  · rename_i cpu cpus _
    split at h
    · rename_i hfit
      obtain rfl := Option.some.inj h
      rw [UInt32.lt_iff_toNat_lt, UInt32.toNat_ofNat_of_lt' hfit, UInt32.toNat_zero]
      exact Nat.succ_pos _
    · cases h
  · split at h
    · rename_i hpos
      exact Option.some.inj h ▸ hpos
    · cases h

theorem cpuSetLoad_eq (dir : Path) :
    (linuxMonitor host (some dir) tree : Monitor LoadWindows α).cpuSetLoad
        (ControlGroup.source dir tree) =
      if (host.cpuCount tree (Path.ofString "online") host.systemOnlineCpus).map UInt32.toNat =
          some (ControlGroup.cpuSet dir tree).length then host.load tree .host
      else (linuxMonitor host (some dir) tree).meanLoad (ControlGroup.cpuSet dir tree) := by
  unfold cpuSetLoad
  rw [ControlGroup.cpuSet_source, pure_bind]
  rfl

/-- A set that covers the host is not empty, so the ticks are read for it too. -/
theorem cpuSetLoad_measures (dir : Path) :
    (((linuxMonitor host (some dir) tree).cpuSetLoad (ControlGroup.source dir tree)).inSession :
        Reading (Session LoadWindows) (Option α)).Measures
      (host.TicksOverflow tree ∧ ControlGroup.SetShown dir tree) := by
  rw [cpuSetLoad_eq, ← ControlGroup.cpuSet_ne_nil_iff]
  split
  · rename_i hcovered
    refine (hostLoad_measures host tree).congr (and_iff_left ?_).symm
    obtain ⟨n, hn, hlength⟩ := Option.map_eq_some_iff.1 hcovered
    have hpos := UInt32.lt_iff_toNat_lt.1 (cpuCount_pos host tree hn)
    rw [hlength] at hpos
    exact List.ne_nil_of_length_pos hpos
  · exact meanLoad_measures host (some dir) tree _

/-- The load without a quota, by the shares. -/
def loadByShares (dir : Path) (shares : Option Counter) :
    Reading (Session LoadWindows) (Option α) :=
  match positive? shares with
  | some _ => (linuxMonitor host (some dir) tree : Monitor LoadWindows α).capacity.inSession >>=
      advance (ControlGroup.cpuUsage dir tree)
  | none => ((linuxMonitor host (some dir) tree).cpuSetLoad
      (ControlGroup.source dir tree)).inSession

theorem load_of_quota {dir : Path} {quota : Counter}
    (h : positive? (ControlGroup.quota dir tree) = some quota) :
    (linuxMonitor host (some dir) tree : Monitor LoadWindows α).load =
      (Measure.history (ControlGroup.cpuUsage dir tree)
        (grantedTime quota ((ControlGroup.cpuStat? dir tree).map (·.periods)))).read := by
  unfold load
  simp only [linuxMonitor, Option.map_some, ControlGroup.quota_source, pure_bind, h]
  rfl

theorem load_of_noQuota {dir : Path} (h : positive? (ControlGroup.quota dir tree) = none) :
    (linuxMonitor host (some dir) tree : Monitor LoadWindows α).load =
      (ofExcept (ControlGroup.shares dir tree)).inSession >>= loadByShares host tree dir := by
  unfold load
  simp only [linuxMonitor, Option.map_some, ControlGroup.quota_source, pure_bind, h]
  rfl

/-- Without a quota the weight is read, and the ticks if it stands for shares or if there is a
set. -/
theorem load_measures_of_noQuota {dir : Path}
    (h : positive? (ControlGroup.quota dir tree) = none) :
    (linuxMonitor host (some dir) tree : Monitor LoadWindows α).load.Measures
      (ControlGroup.WeightOverflows dir tree ∨ host.TicksOverflow tree ∧
        (ControlGroup.WeightActive dir tree ∨ ControlGroup.SetShown dir tree)) := by
  rw [load_of_noQuota host tree h]
  rcases ControlGroup.shares_cases dir tree with
    ⟨herror, hover⟩ | ⟨hover, ⟨k, hk, hpos, hweight⟩ | ⟨hnone, hweight⟩⟩
  · rw [herror]
    exact Measures.of_error.congr (iff_of_true trivial (Or.inl hover))
  · have hshares : positive? (some k) = some k := positive?_eq_some_iff.2 ⟨rfl, hpos⟩
    have hcapacity := capacity_stateless (α := α) host tree hover
    rw [hk]
    change (loadByShares host tree dir (some k)).Measures _
    rw [loadByShares, hshares]
    refine (Measures.bind hcapacity.inSession fun total => .of_measure (.history _ total)).congr ?_
    simp [hover, hweight]
  · rw [hnone]
    refine (cpuSetLoad_measures host tree dir).congr ?_
    simp [hover, hweight]

/-- On every path the load makes its measure first and comes to the state after that. -/
theorem load_measures : (linuxMonitor host group tree : Monitor LoadWindows α).load.Measures
    (Faults host group tree .load) := by
  cases group with
  | none => exact hostLoad_measures host tree
  | some dir =>
      have hactive : ControlGroup.QuotaActive dir tree ↔ _ := ControlGroup.quotaActive_iff
      cases hquota : positive? (ControlGroup.quota dir tree) with
      | some quota =>
          rw [load_of_quota host tree hquota]
          exact (Measures.of_measure _).congr
            (iff_of_false id fun h => h.1 (hactive.2 ⟨quota, hquota⟩))
      | none =>
          have hidle : ¬ControlGroup.QuotaActive dir tree := by
            rw [hactive, hquota]
            nofun
          exact (load_measures_of_noQuota host tree hquota).congr (and_iff_right hidle).symm

/-- The load of the process is set against its own window. -/
theorem processLoad_eq : (linuxMonitor host group tree : Monitor LoadWindows α).host.processLoad =
    ofExcept (host.sample tree .process) >>= Measure.readWindow .process :=
  host.load_eq tree .process

theorem totalSwap_stateless :
    (linuxMonitor host group tree : Monitor LoadWindows α).totalSwap.Stateless False := by
  cases group with
  | none => exact .pure _
  | some dir =>
      rw [totalSwap_of_group rfl]
      split
      · exact .pure _
      · exact .pure _

theorem freeSwap_stateless :
    (linuxMonitor host group tree : Monitor LoadWindows α).freeSwap.Stateless False := by
  cases group with
  | none => exact .pure _
  | some dir =>
      rw [freeSwap_of_group rfl]
      split
      · split
        · exact .pure _
        · split
          · exact .pure _
          · exact .pure _
      · exact .pure _

theorem totalMemory_stateless :
    (linuxMonitor host group tree : Monitor LoadWindows α).totalMemory.Stateless False := by
  cases group with
  | none => exact .pure _
  | some dir =>
      refine (Stateless.pure (ControlGroup.memoryLimit dir tree)).bind_safe fun limit => ?_
      cases limit with
      | none => exact .pure _
      | some limit => exact .pure _

theorem freeMemory_stateless :
    (linuxMonitor host group tree : Monitor LoadWindows α).freeMemory.Stateless False := by
  cases group with
  | none => exact .pure _
  | some dir =>
      have hfree : (ControlGroup.source dir tree : ContainerSource LoadWindows).freeMemory.Stateless
          False := by
        refine (Stateless.pure (ControlGroup.memoryUsage dir tree)).bind_safe fun usage => ?_
        cases positive? usage with
        | none => exact .pure _
        | some usage =>
            refine (Stateless.pure (ControlGroup.memoryLimit dir tree)).bind_safe fun limit => ?_
            cases limit with
            | none => exact .pure _
            | some limit => exact .pure _
      refine hfree.bind_safe fun free => ?_
      cases free with
      | none => exact .pure _
      | some free => exact .pure _

/-- A metric that is no load goes by the files alone. -/
theorem read_stateless {metric : Metric} (h : ¬metric.IsLoad) :
    ((linuxMonitor host group tree : Monitor LoadWindows α).read metric).Stateless
      (Faults host group tree metric) := by
  cases metric with
  | load => exact absurd (Or.inl rfl) h
  | processLoad => exact absurd (Or.inr rfl) h
  | containerPresent => exact .pure _
  | availableProcessors => exact (availableProcessors_stateless host group tree).inSession.map _
  | totalSwap => exact ((totalSwap_stateless host group tree).inSession.map _).map _
  | freeSwap => exact ((freeSwap_stateless host group tree).inSession.map _).map _
  | totalMemory => exact ((totalMemory_stateless host group tree).inSession.map _).map _
  | freeMemory => exact ((freeMemory_stateless host group tree).inSession.map _).map _
  | processTime => exact ((processTime_stateless host tree).inSession.map _).map _
  | committedMemory => exact ((Stateless.pure _).inSession.map _).map _
  | openDescriptors => exact ((Stateless.pure _).inSession.map _).map _
  | maxDescriptors => exact ((Stateless.pure _).inSession.map _).map _

end Monitor

end ResourceMetrics
