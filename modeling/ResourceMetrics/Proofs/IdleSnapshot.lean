import ResourceMetrics.Proofs.Binary64Unsigned
import ResourceMetrics.Proofs.ServiceStart

/-! What a second snapshot of the same files shows. The first one has left every sample that the
second one takes in its window or in the history, so each load is measured over no time and is
zero, unless it is not known. For the mean load that needs a window of each CPU, which the first
snapshot has opened or has come upon a CPU without a sample, as the second one then does too. -/

namespace ResourceMetrics

variable {α : Type} [LoadScale α]

/-- A load over no time: zero, if it is known at all. -/
def Load.idle (load : Option α) : Option α := load.map fun _ => Load.zero

theorem LoadHistory.load?_ofSamples (last : LoadHistory) (usage total : Option Counter) :
    ((ofSamples usage total).load? usage total : Option α) =
      Load.idle (last.load? usage total) := by
  cases usage with
  | none => rfl
  | some u =>
      unfold load?
      cases htotal : positive? total with
      | none => rfl
      | some t =>
          have hsame : ¬((ofSamples (some u) total).usage < u ∧
              (ofSamples (some u) total).total < t) := fun h => UInt64.lt_irrefl u h.1
          simp only [bind, Option.bind, pure, if_neg hsame, Load.idle, Option.map_some]

theorem CpuTicks.loadSince_self (ticks : CpuTicks) : (ticks.loadSince ticks : α) = Load.zero :=
  if_neg (UInt64.lt_irrefl ticks.total)

theorem Reading.inSession_ok_iff {σ β : Type} {r : Reading σ β} {s s' : Session σ} {b : β} :
    r.inSession s = .ok b s' ↔
      ∃ source, r s.source = .ok b source ∧ s' = { s with source } := by
  unfold inSession
  cases r s.source with
  | ok b' source => simp [eq_comm]
  | error overflow source => simp

namespace Measure

/-- Each CPU of a set has its sample in its window. -/
def Settled (sample : CpuIndex → Option CpuTicks) (cpus : List CpuIndex) (windows : LoadWindows) :
    Prop :=
  ∀ cpu ∈ cpus, sample cpu = some (windows.last (.cpu cpu))

variable {sample : CpuIndex → Option CpuTicks} {windows windows' : LoadWindows}

theorem readWindow_again {key : LoadKey} {ticks : Option CpuTicks} {load : Option α}
    (h : readWindow key ticks windows = .ok load windows') :
    ∃ windows'', readWindow key ticks windows' =
      .ok (Load.idle load) windows'' := by
  cases ticks with
  | none =>
      cases h
      exact ⟨_, rfl⟩
  | some ticks =>
      rw [readWindow_some] at h
      cases h
      rw [readWindow_some, LoadWindows.last_record_self, CpuTicks.loadSince_self]
      exact ⟨_, rfl⟩

/-- A window that holds the sample of its CPU still does so when CPUs have been read. -/
theorem settled_of_readWindow {cpu other : CpuIndex} {load : Option α}
    (h : readWindow (.cpu cpu) (sample cpu) windows = .ok load windows')
    (hother : sample other = some (windows.last (.cpu other))) :
    sample other = some (windows'.last (.cpu other)) := by
  cases hsample : sample cpu with
  | none =>
      rw [hsample] at h
      cases h
      exact hother
  | some ticks =>
      rw [hsample, readWindow_some] at h
      cases h
      by_cases heq : other = cpu
      · rw [heq, hsample, LoadWindows.last_record_self]
      · rw [LoadWindows.last_record_of_ne _ _ (by simpa using heq)]
        exact hother

theorem settled_of_readSum {cpus : List CpuIndex} {other : CpuIndex} :
    ∀ {sum : α} {load : Option α} {windows : LoadWindows},
      readSum sample sum cpus windows = .ok load windows' →
        sample other = some (windows.last (.cpu other)) →
          sample other = some (windows'.last (.cpu other)) := by
  induction cpus with
  | nil =>
      intro sum load windows h hother
      cases h
      exact hother
  | cons cpu rest ih =>
      intro sum load windows h hother
      obtain ⟨first, windows₁, hfirst, h⟩ := Reading.bind_ok_iff.1 h
      have hother₁ := settled_of_readWindow hfirst hother
      cases first with
      | none =>
          cases h
          exact hother₁
      | some first => exact ih h hother₁

/-- Reading a whole set leaves the sample of each CPU in its window. -/
theorem settled_of_readSum_some {cpus : List CpuIndex} :
    ∀ {sum load : α} {windows : LoadWindows},
      readSum sample sum cpus windows = .ok (some load) windows' →
        Settled sample cpus windows' := by
  induction cpus with
  | nil => exact fun _ => nofun
  | cons cpu rest ih =>
      intro sum load windows h
      obtain ⟨first, windows₁, hfirst, h⟩ := Reading.bind_ok_iff.1 h
      cases hsample : sample cpu with
      | none =>
          rw [hsample] at hfirst
          cases hfirst
          cases h
      | some ticks =>
          rw [hsample, readWindow_some] at hfirst
          cases hfirst
          refine List.forall_mem_cons.2 ⟨settled_of_readSum h ?_, ih h⟩
          rw [hsample, LoadWindows.last_record_self]

/-- Where a set is settled, all its loads are zero. -/
theorem readSum_of_settled (hadd : (Load.zero + Load.zero : α) = Load.zero) {cpus : List CpuIndex} :
    ∀ {windows : LoadWindows}, Settled sample cpus windows →
      ∃ windows', readSum sample (Load.zero : α) cpus windows =
        .ok (some Load.zero) windows' := by
  induction cpus with
  | nil => exact fun {windows} _ => ⟨windows, rfl⟩
  | cons cpu rest ih =>
      intro windows h
      obtain ⟨hcpu, hrest⟩ := List.forall_mem_cons.1 h
      have hload : readWindow (.cpu cpu) (sample cpu) windows =
          .ok (some (Load.zero : α)) (windows.record (.cpu cpu) (windows.last (.cpu cpu))) := by
        rw [hcpu, readWindow_some, CpuTicks.loadSince_self]
      obtain ⟨windows', hsum⟩ := ih fun other hother =>
        settled_of_readWindow hload (hrest other hother)
      refine ⟨windows', ?_⟩
      rw [readSum, Reading.bind_ok hload]
      change readSum sample (Load.zero + Load.zero) rest _ = _
      rw [hadd]
      exact hsum

/-- A CPU without a sample leaves the sum unknown, whatever the windows hold. -/
theorem readSum_none_again {cpus : List CpuIndex} :
    ∀ {sum : α} {windows : LoadWindows}, readSum sample sum cpus windows = .ok none windows' →
      ∀ (sum : α) (windows : LoadWindows), ∃ windows'',
        readSum sample sum cpus windows = .ok none windows'' := by
  induction cpus with
  | nil =>
      intro sum windows h
      cases h
  | cons cpu rest ih =>
      intro sum windows h sum' again
      obtain ⟨first, windows₁, hfirst, h⟩ := Reading.bind_ok_iff.1 h
      cases hsample : sample cpu with
      | none =>
          refine ⟨again, ?_⟩
          rw [readSum, hsample]
          rfl
      | some ticks =>
          rw [hsample, readWindow_some] at hfirst
          cases hfirst
          rw [readSum, hsample, Reading.bind_ok (readWindow_some _ _ again)]
          exact ih h _ _

variable (hadd : (Load.zero + Load.zero : α) = Load.zero)
  (hmean : ∀ {n : Nat}, 0 < n → Load.mean (Load.zero : α) n = Load.zero)

include hadd hmean

theorem readMean_again {cpus : List CpuIndex} {load : Option α}
    (h : readMean cpus sample windows = .ok load windows') :
    ∃ windows'', readMean cpus sample windows' =
      .ok (Load.idle load) windows'' := by
  unfold readMean at h ⊢
  by_cases hempty : cpus.isEmpty = true
  · rw [if_pos hempty] at h
    cases h
    rw [if_pos hempty]
    exact ⟨_, rfl⟩
  · rw [if_neg hempty] at h ⊢
    obtain ⟨sum, windows₁, hsum, h⟩ := Reading.bind_ok_iff.1 h
    cases h
    cases sum with
    | none =>
        obtain ⟨windows'', hagain⟩ := readSum_none_again hsum Load.zero windows'
        exact ⟨windows'', by rw [Reading.bind_ok hagain]; rfl⟩
    | some sum =>
        obtain ⟨windows'', hagain⟩ := readSum_of_settled hadd (settled_of_readSum_some hsum)
        have hlength : 0 < cpus.length := List.length_pos_iff.2 (by simpa using hempty)
        refine ⟨windows'', ?_⟩
        rw [Reading.bind_ok hagain]
        change EStateM.Result.ok (some (Load.mean Load.zero cpus.length)) windows'' = _
        rw [hmean hlength]
        rfl

/-- A measure that is read twice gives zero the second time, if it gives a load at all. -/
theorem read_again {measure : Measure} {s s' : Session LoadWindows} {load : Option α}
    (h : measure.read s = .ok load s') :
    ∃ s'', measure.read s' = .ok (Load.idle load) s'' := by
  cases measure with
  | history usage total =>
      cases h
      exact ⟨_, by rw [← LoadHistory.load?_ofSamples s.history]; rfl⟩
  | host sample =>
      obtain ⟨windows, hfirst, rfl⟩ := Reading.inSession_ok_iff.1 h
      obtain ⟨windows', hagain⟩ := readWindow_again hfirst
      exact ⟨_, Reading.inSession_ok hagain⟩
  | mean cpus sample =>
      obtain ⟨windows, hfirst, rfl⟩ := Reading.inSession_ok_iff.1 h
      obtain ⟨windows', hagain⟩ := readMean_again hadd hmean hfirst
      exact ⟨_, Reading.inSession_ok hagain⟩

end Measure

open Binary64

theorem unsigned_loadSince (now last : CpuTicks) : Unsigned (now.loadSince last) := by
  unfold CpuTicks.loadSince
  split
  · exact unsigned_ratio _ _
  · exact unsigned_zero

theorem unsigned_load? {last : LoadHistory} {usage total : Option Counter} {x : Binary64}
    (h : last.load? usage total = some x) : Unsigned x := by
  unfold LoadHistory.load? at h
  obtain ⟨u, -, h⟩ := Option.bind_eq_some_iff.1 h
  obtain ⟨t, -, h⟩ := Option.bind_eq_some_iff.1 h
  obtain rfl := Option.some.inj h
  split
  · exact unsigned_ratio _ _
  · exact unsigned_zero

namespace Measure

theorem unsigned_of_readWindow {key : LoadKey} {ticks : Option CpuTicks} {x : Binary64}
    {windows windows' : LoadWindows} (h : readWindow key ticks windows = .ok (some x) windows') :
    Unsigned x := by
  cases ticks with
  | none => cases h
  | some ticks =>
      rw [readWindow_some] at h
      cases h
      exact unsigned_loadSince _ _

theorem unsigned_of_readSum {sample : CpuIndex → Option CpuTicks} {cpus : List CpuIndex} :
    ∀ {sum x : Binary64} {windows windows' : LoadWindows}, Unsigned sum →
      readSum sample sum cpus windows = .ok (some x) windows' → Unsigned x := by
  induction cpus with
  | nil =>
      intro sum x windows windows' hsum h
      cases h
      exact hsum
  | cons cpu rest ih =>
      intro sum x windows windows' hsum h
      obtain ⟨first, windows₁, hfirst, h⟩ := Reading.bind_ok_iff.1 h
      cases first with
      | none => cases h
      | some first => exact ih (hsum.add (unsigned_of_readWindow hfirst)) h

theorem unsigned_of_read {measure : Measure} {s s' : Session LoadWindows} {x : Binary64}
    (h : measure.read s = .ok (some x) s') : Unsigned x := by
  cases measure with
  | history usage total =>
      injection h with h _
      exact unsigned_load? h
  | host sample =>
      obtain ⟨windows, hread, -⟩ := Reading.inSession_ok_iff.1 h
      exact unsigned_of_readWindow hread
  | mean cpus sample =>
      obtain ⟨windows, hread, -⟩ := Reading.inSession_ok_iff.1 h
      unfold readMean at hread
      split at hread
      · cases hread
      · obtain ⟨sum, windows₁, hsum, hread⟩ := Reading.bind_ok_iff.1 hread
        injection hread with hmean _
        obtain ⟨total, rfl, rfl⟩ := Option.map_eq_some_iff.1 hmean
        exact unsigned_mean (unsigned_of_readSum unsigned_zero hsum) _

end Measure

/-- What a load that was reported becomes when nothing has changed since. -/
def settle (x : Binary64) : Binary64 :=
  if x = LoadScale.unknown then LoadScale.unknown else Load.zero

def MetricValue.settled : MetricValue Binary64 → MetricValue Binary64
  | .load x => .load (settle x)
  | value => value

/-- A known load is never reported as the number that means that there is none. -/
theorem reportLoad_idle {load : Option Binary64} (h : ∀ x, load = some x → Unsigned x) :
    reportLoad (Load.idle load) = settle (reportLoad load) := by
  cases load with
  | none => exact (if_pos rfl).symm
  | some x => exact (if_neg (ne_unknown_of_unsigned (h x rfl))).symm

section Getter

variable {host : HostFiles} {group : Option Path} {tree : FileTree}
  {s s' : Session LoadWindows} {value : MetricValue Binary64}

/-- A load that is reported settles if it is zero the second time, where it is known. -/
theorem map_reportLoad_again {r : Reading (Session LoadWindows) (Option Binary64)}
    (hagain : ∀ {load s'}, r s = .ok load s' → (∀ x, load = some x → Unsigned x) ∧
      ∃ s'', r s' = .ok (Load.idle load) s'')
    (h : (MetricValue.load <$> reportLoad <$> r) s = .ok value s') :
    ∃ s'', (MetricValue.load <$> reportLoad <$> r) s' = .ok value.settled s'' := by
  obtain ⟨reported, hreported, rfl⟩ := Reading.map_ok_iff.1 h
  obtain ⟨load, hload, rfl⟩ := Reading.map_ok_iff.1 hreported
  obtain ⟨hunsigned, s'', hsecond⟩ := hagain hload
  refine ⟨s'', ?_⟩
  rw [Reading.map_ok (Reading.map_ok hsecond), reportLoad_idle hunsigned]
  rfl

theorem load_again {load : Option Binary64}
    (h : (linuxMonitor host group tree).load s = .ok load s') :
    (∀ x, load = some x → Unsigned x) ∧
      ∃ s'', (linuxMonitor host group tree).load s' = .ok (Load.idle load) s'' := by
  obtain ⟨measuring, ⟨e, rfl, -⟩, hread⟩ := Monitor.load_measures (α := Binary64) host group tree
  rw [hread] at h ⊢
  obtain ⟨measure, s₁, hmeasure, hfirst⟩ := Reading.bind_ok_iff.1 h
  cases e with
  | error overflow => cases hmeasure
  | ok measure' =>
      cases hmeasure
      refine ⟨?_, Measure.read_again zero_add_zero mean_zero hfirst⟩
      rintro x rfl
      exact Measure.unsigned_of_read hfirst

theorem processLoad_again {load : Option Binary64}
    (h : (linuxMonitor host group tree).host.processLoad.inSession s = .ok load s') :
    (∀ x, load = some x → Unsigned x) ∧
      ∃ s'', (linuxMonitor host group tree).host.processLoad.inSession s' =
        .ok (Load.idle load) s'' := by
  rw [Monitor.processLoad_eq] at h ⊢
  obtain ⟨windows, hread, rfl⟩ := Reading.inSession_ok_iff.1 h
  obtain ⟨sample, windows₁, hsample, hfirst⟩ := Reading.bind_ok_iff.1 hread
  cases hfound : host.sample tree .process with
  | error overflow =>
      rw [hfound] at hsample
      cases hsample
  | ok sample' =>
      rw [hfound] at hsample
      cases hsample
      obtain ⟨windows', hagain⟩ := Measure.readWindow_again hfirst
      refine ⟨?_, _, Reading.inSession_ok hagain⟩
      rintro x rfl
      exact Measure.unsigned_of_readWindow hfirst

/-- A getter that is called again on the same files. -/
theorem outcome_again {snapshot : Snapshot Binary64} (k : Metric)
    (h : (GetterCall.reading Binary64 host group ⟨tree, k⟩).outcome s = .ok (snapshot.value k)) :
    (GetterCall.reading Binary64 host group ⟨tree, k⟩).outcome
        ((GetterCall.reading Binary64 host group ⟨tree, k⟩).final s) =
      .ok (snapshot.value k).settled := by
  by_cases hload : k.IsLoad
  · have hfirst := Reading.ok_iff.2 ⟨h, rfl⟩
    rcases hload with rfl | rfl
    · obtain ⟨s'', hagain⟩ := map_reportLoad_again load_again hfirst
      exact (Reading.ok_iff.1 hagain).1
    · obtain ⟨s'', hagain⟩ := map_reportLoad_again processLoad_again hfirst
      exact (Reading.ok_iff.1 hagain).1
  · have hsettled : (snapshot.value k).settled = snapshot.value k := by
      cases k with
      | load => exact absurd (Or.inl rfl) hload
      | processLoad => exact absurd (Or.inr rfl) hload
      | _ => rfl
    have hfinal := (Monitor.read_stateless (α := Binary64) host group tree hload).final s
    change (GetterCall.reading Binary64 host group ⟨tree, k⟩).final s = s at hfinal
    rw [hfinal, hsettled]
    exact h

end Getter

/-- What a snapshot becomes when nothing has changed since. -/
def Snapshot.settled (snapshot : Snapshot Binary64) : Snapshot Binary64 :=
  { snapshot with load := settle snapshot.load, processLoad := settle snapshot.processLoad }

theorem Snapshot.value_settled (snapshot : Snapshot Binary64) (k : Metric) :
    snapshot.settled.value k = (snapshot.value k).settled := by
  cases k with
  | _ => rfl

section Snapshot

variable {host : HostFiles} {group : Option Path} {tree : FileTree} {s s' : Session LoadWindows}

/-- After a snapshot a getter finds what its own call alone would have left for it. -/
theorem agrees_sessionAfter_all (k : Metric) :
    k.Agrees (GetterCall.sessionAfter α host group (callsOn tree Metric.all) s)
      ((GetterCall.reading α host group ⟨tree, k⟩).final s) := by
  have hrun := (GetterCall.run_of_agrees α host group k (callsOn tree Metric.all)
    (Metric.Agrees.refl k s)).2
  have hown : (callsOn tree Metric.all).filter (·.metric = k) = [⟨tree, k⟩] := by
    cases k with
    | _ => rfl
  rw [hown] at hrun
  exact hrun

theorem snapshot_again {snapshot : Snapshot Binary64}
    (h : (linuxMonitor host group tree).snapshot s = .ok snapshot s') :
    ∃ s'', (linuxMonitor host group tree).snapshot s' = .ok snapshot.settled s'' := by
  obtain ⟨hvalue, rfl⟩ := outcomes_of_snapshot h
  have hagain (k : Metric) : (GetterCall.reading Binary64 host group ⟨tree, k⟩).outcome
      (GetterCall.sessionAfter Binary64 host group (callsOn tree Metric.all) s) =
        .ok (snapshot.settled.value k) := by
    rw [GetterCall.outcome_of_agrees Binary64 host group ⟨tree, k⟩ (agrees_sessionAfter_all k),
      outcome_again k (hvalue k), Snapshot.value_settled]
  obtain ⟨second, hsecond, heq⟩ := snapshot_of_outcomes hagain
  rw [Snapshot.value_injective heq] at hsecond
  exact ⟨_, hsecond⟩

end Snapshot

/-- A request for the metrics. -/
structure Request.AsksForMetrics (request : Request) : Prop where
  path : Request.path request.target = HttpApi.metricsPath
  method : request.method = "GET".toList

/-- Snapshots that are taken while no file changes. -/
structure IdleLaw : Prop where
  /-- From any session that earlier calls have led to. -/
  again : ∀ {host : HostFiles} {group : Option Path} {tree : FileTree}
    {s s' : Session LoadWindows} {snapshot : Snapshot Binary64},
    (linuxMonitor host group tree).snapshot s = .ok snapshot s' →
      ∃ s'', (linuxMonitor host group tree).snapshot s' = .ok snapshot.settled s''
  /-- The first request does not see the average since boot. -/
  started : ∀ {config : Config} {limit : Counter} {tree : FileTree} {system : SystemAccount}
    {service : Service} {note : StartNote} {request : Request},
    Service.start config limit tree system = .ok (service, note) → request.AsksForMetrics →
      ∃ snapshot session, HttpApi.respond (service.monitor tree) request service.session =
          (HttpApi.ofSnapshot snapshot, session) ∧
        (snapshot.load = Load.zero ∨ snapshot.load = LoadScale.unknown) ∧
        (snapshot.processLoad = Load.zero ∨ snapshot.processLoad = LoadScale.unknown)

theorem settle_cases (x : Binary64) : settle x = Load.zero ∨ settle x = LoadScale.unknown := by
  unfold settle
  split
  · exact Or.inr rfl
  · exact Or.inl rfl

theorem HttpApi.respond_of_snapshot {σ : Type} {m : Monitor σ Binary64} {request : Request}
    {s s' : Session σ} {snapshot : Snapshot Binary64} (h : request.AsksForMetrics)
    (hsnapshot : m.snapshot s = .ok snapshot s') :
    respond m request s = (ofSnapshot snapshot, s') := by
  unfold respond collect
  rw [h.path, h.method, hsnapshot]
  rfl

theorem idleLaw : IdleLaw where
  again := snapshot_again
  started hstart hrequest := by
    obtain ⟨first, session, hfirst, rfl, -⟩ := (Service.start_eq_ok_iff _ _ _ _).1 hstart
    obtain ⟨s'', hagain⟩ := snapshot_again hfirst
    exact ⟨_, _, HttpApi.respond_of_snapshot hrequest hagain, settle_cases _, settle_cases _⟩

/-- A load and a number of processors, and nothing else that is known. -/
def loadAlone (container : Bool) (processors : UInt32) (load : Binary64) : Snapshot Binary64 :=
  ⟨container, processors, -1, -1, -1, -1, load, LoadScale.unknown, -1, -1, -1, 512⟩

/-- The ticks of a host and a group with some interface files. -/
def idleTree (files : List (String × String)) : FileTree :=
  FileTree.ofList
    ((Path.ofString "/proc/stat",
        .file (Path.ofString "cpu  300 0 0 100\ncpu0 100 0 0 100\ncpu1 50 0 0 150\n")) ::
      files.map fun f => (Path.ofString ("/group/" ++ f.1), .file (Path.ofString f.2))) []

/-- Half of the quota of ten periods was used. -/
def quotaTree : FileTree :=
  idleTree [("cpu.max", "100000 100000\n"), ("cpu.stat", "usage_usec 500000\nnr_periods 10\n")]

/-- A set of two CPUs, with nothing else that limits them. -/
def pairTree : FileTree := idleTree [("cpuset.cpus", "0-1\n")]

/-- The monitor of a service over a tree, with the group if it has one. -/
def idleMonitor (group : Option Path) (tree : FileTree) : Monitor LoadWindows Binary64 :=
  linuxMonitor (Service.hostFiles {} 512 {}) group tree

/-- The set is read beforehand, for sorting its members is more than evaluation opens. -/
theorem idleMonitor_pairTree : idleMonitor (some (Path.ofString "/group")) pairTree =
    { host := (Service.hostFiles {} 512 {}).source pairTree
      container := some
        { ControlGroup.source (Path.ofString "/group") pairTree with
          configuredCpus := pure [0, 1] } } := by
  have hcpus : ControlGroup.cpus (Path.ofString "/group") pairTree "cpuset.cpus" = [0, 1] := by cbv
  unfold idleMonitor linuxMonitor ControlGroup.source
  rw [Option.map_some, hcpus]

/-- The first snapshot shows an average since boot, the next one does not: without a container,
with a quota, and with a set of CPUs. -/
theorem idleLaw_sinceBoot :
    (∃ s, (idleMonitor none quotaTree).snapshot { source := {} } =
        .ok (loadAlone false 1 ⟨0x3FE8000000000000⟩) s ∧
      ∃ s', (idleMonitor none quotaTree).snapshot s = .ok (loadAlone false 1 ⟨0⟩) s') ∧
    (∃ s, (idleMonitor (some (Path.ofString "/group")) quotaTree).snapshot { source := {} } =
        .ok (loadAlone true 1 ⟨0x3FE0000000000000⟩) s ∧
      ∃ s', (idleMonitor (some (Path.ofString "/group")) quotaTree).snapshot s =
        .ok (loadAlone true 1 ⟨0⟩) s') ∧
    ∃ s, (idleMonitor (some (Path.ofString "/group")) pairTree).snapshot { source := {} } =
        .ok (loadAlone true 2 ⟨0x3FD8000000000000⟩) s ∧
      ∃ s', (idleMonitor (some (Path.ofString "/group")) pairTree).snapshot s =
        .ok (loadAlone true 2 ⟨0⟩) s' := by
  have hbare : (idleMonitor none quotaTree).snapshot.outcome { source := {} } =
      .ok (loadAlone false 1 ⟨0x3FE8000000000000⟩) := by
    decide +kernel
  have hquota : (idleMonitor (some (Path.ofString "/group")) quotaTree).snapshot.outcome
      { source := {} } = .ok (loadAlone true 1 ⟨0x3FE0000000000000⟩) := by
    decide +kernel
  have hset : (idleMonitor (some (Path.ofString "/group")) pairTree).snapshot.outcome
      { source := {} } = .ok (loadAlone true 2 ⟨0x3FD8000000000000⟩) := by
    rw [idleMonitor_pairTree]
    decide +kernel
  have hbare' := Reading.ok_iff.2 ⟨hbare, rfl⟩
  have hquota' := Reading.ok_iff.2 ⟨hquota, rfl⟩
  have hset' := Reading.ok_iff.2 ⟨hset, rfl⟩
  exact ⟨⟨_, hbare', idleLaw.again hbare'⟩, ⟨_, hquota', idleLaw.again hquota'⟩,
    ⟨_, hset', idleLaw.again hset'⟩⟩

end ResourceMetrics
