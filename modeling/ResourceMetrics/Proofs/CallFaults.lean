import ResourceMetrics.Proofs.GetterRuns
import ResourceMetrics.Proofs.TickSums

/-! Which calls answer. A call faults exactly if its files bring it to a sum of ticks or to a
product of a weight that exceeds a counter, whatever calls came before it; all other arithmetic
fits. A call that faults leaves what is remembered as it was. -/

namespace ResourceMetrics

variable {σ α β γ : Type}

/-- A reading faults exactly if `fault` holds, and then it leaves its state as it was. -/
structure Reading.FaultsIff (fault : Prop) (r : Reading σ β) : Prop where
  answers : ¬fault → ∀ s, ∃ b s', r s = .ok b s'
  faults : fault → ∀ s, ∃ overflow, r s = .error overflow s

namespace Reading

variable {p : Prop} {x : Reading σ β}

theorem FaultsIff.map (f : β → γ) (h : FaultsIff p x) : FaultsIff p (f <$> x) where
  answers hp s := by
    obtain ⟨b, s', hx⟩ := h.answers hp s
    exact ⟨f b, s', map_ok hx⟩
  faults hp s := by
    obtain ⟨overflow, hx⟩ := h.faults hp s
    exact ⟨overflow, map_error hx⟩

theorem Stateless.faultsIff (h : Stateless p x) : FaultsIff p x := by
  obtain ⟨e, rfl, hfault⟩ := h
  cases e with
  | ok b => exact ⟨fun _ s => ⟨b, s, rfl⟩, fun hp => nomatch hfault.2 hp⟩
  | error overflow =>
      exact ⟨fun hp => absurd (hfault.1 ⟨overflow, rfl⟩) hp, fun _ s => ⟨overflow, rfl⟩⟩

/-- What follows a reading without a state may move the state if it always answers. -/
theorem Stateless.bind_faultsIff {f : β → Reading σ γ} (h : Stateless p x)
    (hf : ∀ b s, ∃ c s', f b s = .ok c s') : FaultsIff p (x >>= f) := by
  obtain ⟨e, rfl, hfault⟩ := h
  cases e with
  | ok b => exact ⟨fun _ s => hf b s, fun hp => nomatch hfault.2 hp⟩
  | error overflow =>
      exact ⟨fun hp => absurd (hfault.1 ⟨overflow, rfl⟩) hp, fun _ s => ⟨overflow, rfl⟩⟩

theorem FaultsIff.inSession (h : FaultsIff p x) : FaultsIff p x.inSession where
  answers hp s := by
    obtain ⟨b, source, hx⟩ := h.answers hp s.source
    exact ⟨b, _, inSession_ok hx⟩
  faults hp s := by
    obtain ⟨overflow, hx⟩ := h.faults hp s.source
    exact ⟨overflow, inSession_error hx⟩

end Reading

variable [LoadScale α]

namespace Measure

theorem readWindow_answers (key : LoadKey) (sample : Option CpuTicks) (windows : LoadWindows) :
    ∃ load windows', (readWindow key sample : Reading LoadWindows (Option α)) windows =
      .ok load windows' := by
  cases sample with
  | none => exact ⟨none, windows, rfl⟩
  | some sample => exact ⟨_, _, rfl⟩

theorem readSum_answers (sample : CpuIndex → Option CpuTicks) (cpus : List CpuIndex) :
    ∀ (sum : α) (windows : LoadWindows),
      ∃ load windows', readSum sample sum cpus windows = .ok load windows' := by
  induction cpus with
  | nil => exact fun sum windows => ⟨some sum, windows, rfl⟩
  | cons cpu rest ih =>
      intro sum windows
      obtain ⟨load, windows', hload⟩ :=
        readWindow_answers (α := α) (.cpu cpu) (sample cpu) windows
      rw [readSum, Reading.bind_ok hload]
      cases load with
      | none => exact ⟨none, windows', rfl⟩
      | some load => exact ih (sum + load) windows'

theorem readMean_answers (cpus : List CpuIndex) (sample : CpuIndex → Option CpuTicks)
    (windows : LoadWindows) : ∃ load windows',
      (readMean cpus sample : Reading LoadWindows (Option α)) windows = .ok load windows' := by
  unfold readMean
  split
  · exact ⟨none, windows, rfl⟩
  · obtain ⟨sum, windows', hsum⟩ := readSum_answers (α := α) sample cpus Load.zero windows
    rw [Reading.bind_ok hsum]
    exact ⟨_, windows', rfl⟩

/-- The load of a measure is always read. -/
theorem read_answers (measure : Measure) (s : Session LoadWindows) :
    ∃ load s', (measure.read : Reading (Session LoadWindows) (Option α)) s = .ok load s' := by
  cases measure with
  | history usage total => exact ⟨_, _, rfl⟩
  | host sample =>
      obtain ⟨load, windows, hload⟩ := readWindow_answers (α := α) .host sample s.source
      exact ⟨load, _, Reading.inSession_ok hload⟩
  | mean cpus sample =>
      obtain ⟨load, windows, hload⟩ := readMean_answers (α := α) cpus sample s.source
      exact ⟨load, _, Reading.inSession_ok hload⟩

end Measure

theorem Monitor.read_faultsIff (host : HostFiles) (group : Option Path) (tree : FileTree)
    (metric : Metric) : ((linuxMonitor host group tree : Monitor LoadWindows α).read
      metric).FaultsIff (Faults host group tree metric) := by
  by_cases hload : metric.IsLoad
  · rcases hload with rfl | rfl
    · obtain ⟨measure, hmeasure, hread⟩ := load_measures (α := α) host group tree
      refine .map _ (.map _ ?_)
      rw [hread]
      exact hmeasure.bind_faultsIff Measure.read_answers
    · refine .map _ (.map _ (.inSession ?_))
      rw [processLoad_eq]
      have hsample := Reading.Stateless.ofExcept (σ := LoadWindows)
        (host.sample_error_iff tree .process)
      exact hsample.bind_faultsIff (Measure.readWindow_answers .process)
  · exact (read_stateless host group tree hload).faultsIff

/-- Which calls over the files of a tree answer. -/
structure AnswerLaw (α : Type) [LoadScale α] (host : HostFiles) (group : Option Path)
    (tree : FileTree) : Prop where
  /-- In whatever session a run of calls has led to. -/
  call : ∀ metric, ((linuxMonitor host group tree : Monitor LoadWindows α).read
    metric).FaultsIff (Faults host group tree metric)
  snapshot : ∀ s, (∃ snapshot s',
    (linuxMonitor host group tree : Monitor LoadWindows α).snapshot s = .ok snapshot s') ↔
      ∀ metric, ¬Faults host group tree metric
  ticks : host.TicksOverflow tree ↔
    ∃ contents, tree.Holds (host.procRoot.join (Path.ofString "stat")) contents ∧
      LinesExceed (lines contents)
  otherSteps : StepsFit

/-- A metric answers in a snapshot exactly if it answers by itself, so one fault ends it all. -/
theorem snapshot_answers_iff (host : HostFiles) (group : Option Path) (tree : FileTree)
    (s : Session LoadWindows) : (∃ snapshot s',
      (linuxMonitor host group tree : Monitor LoadWindows α).snapshot s = .ok snapshot s') ↔
        ∀ metric, ¬Faults host group tree metric := by
  constructor
  · rintro ⟨snapshot, s', hsnapshot⟩ metric hfault
    have hanswer := Reading.ok_iff.2 ⟨(outcomes_of_snapshot hsnapshot).1 metric, rfl⟩
    obtain ⟨overflow, herror⟩ :=
      (Monitor.read_faultsIff (α := α) host group tree metric).faults hfault s
    cases hanswer.symm.trans herror
  · intro hfaults
    have houtcome (k : Metric) :
        ∃ v : MetricValue α, (GetterCall.reading α host group ⟨tree, k⟩).outcome s = .ok v := by
      obtain ⟨v, s', hread⟩ :=
        (Monitor.read_faultsIff (α := α) host group tree k).answers (hfaults k) s
      exact ⟨v, (Reading.ok_iff.1 hread).1⟩
    choose value hvalue using houtcome
    obtain ⟨snapshot, hsnapshot, -⟩ := snapshot_of_outcomes hvalue
    exact ⟨snapshot, _, hsnapshot⟩

theorem answerLaw (host : HostFiles) (group : Option Path) (tree : FileTree) :
    AnswerLaw α host group tree where
  call metric := Monitor.read_faultsIff host group tree metric
  snapshot s := snapshot_answers_iff host group tree s
  ticks := host.ticksOverflow_iff tree
  otherSteps := stepsFit

/-- A group whose weight is the largest counter. -/
def heavyGroup : FileTree where
  entries :=
    [([Path.ofString "group"], .directory),
      ([Path.ofString "group", Path.ofString "cpu.weight"],
        .file (Path.ofString "18446744073709551615\n"))]

/-- The file is read and parsed, and yet the getter does not return. -/
theorem availableProcessors_heavyGroup :
    ControlGroup.Shows (Path.ofString "group") heavyGroup "cpu.weight" CpuWeight.read
        ⟨18446744073709551615⟩ ∧
      (linuxMonitor HostFiles.relative (some (Path.ofString "group")) heavyGroup :
        Monitor LoadWindows Binary64).read .availableProcessors { source := {} } =
          .error .multiplication { source := {} } :=
  ⟨rfl, rfl⟩

end ResourceMetrics
