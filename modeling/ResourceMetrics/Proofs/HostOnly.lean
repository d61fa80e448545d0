import ResourceMetrics.Proofs.DetectionFrame
import ResourceMetrics.Proofs.MonitorCalls

/-! A monitor without a container reports what the host by itself gives, and of the files it sees
five. A call over two trees that agree in these is one and the same reading, so two runs of such
calls give the same answers and leave the same behind, whatever else their trees hold. A service
runs like this if it looks for no container or finds none. -/

namespace ResourceMetrics

variable {σ α : Type}

namespace HostSource

variable [LoadScale α]

def amount (r : Reading σ (Option Counter)) : Reading σ (MetricValue α) :=
  (fun n => .amount (reportAmount n)) <$> r

/-- A metric of the host alone. Its processors are those that are online, at least one. -/
def report (host : HostSource σ α) : Metric → Reading σ (MetricValue α)
  | .containerPresent => pure (.flag false)
  | .availableProcessors => (fun online => .processors (max (online.getD 1) 1)) <$> host.onlineCpus
  | .totalSwap => amount host.totalSwap
  | .freeSwap => amount host.freeSwap
  | .totalMemory => amount host.totalMemory
  | .freeMemory => amount host.freeMemory
  | .load => (fun load => .load (reportLoad load)) <$> host.load
  | .processLoad => (fun load => .load (reportLoad load)) <$> host.processLoad
  | .processTime => amount host.processTime
  | .committedMemory => amount host.committedMemory
  | .openDescriptors => amount host.openDescriptors
  | .maxDescriptors => amount host.maxDescriptors

/-- The values that a call asks the host alone for. -/
def values (host : HostSource σ α) (call : Call) : Reading σ (List (MetricValue α)) :=
  call.metrics.mapM host.report

end HostSource

section Report

variable [LoadScale α]

/-- Without a container every metric is the host's. -/
theorem Monitor.read_of_no_container {m : Monitor σ α} (h : m.container = none) (k : Metric) :
    m.read k = (m.host.report k).inSession := by
  have hprocessors : m.availableProcessors =
      (fun online => max (online.getD 1) 1) <$> m.host.onlineCpus := by
    unfold Monitor.availableProcessors
    rw [h]
    rfl
  have hload : m.load = m.host.load.inSession := by
    unfold Monitor.load
    rw [h]
  cases k with
  | containerPresent =>
      rw [Monitor.read, h]
      rfl
  | availableProcessors =>
      rw [Monitor.read, hprocessors, HostSource.report, Reading.inSession_map,
        Reading.inSession_map, Functor.map_map]
  | load => simp only [Monitor.read, reportedLoad, hload, HostSource.report,
      Reading.inSession_map, Functor.map_map]
  | processLoad => simp only [Monitor.read, reportedProcessLoad, HostSource.report,
      Reading.inSession_map, Functor.map_map]
  | _ => simp only [Monitor.read, amount, totalSwap, freeSwap, totalMemory, freeMemory, h,
      HostSource.report, HostSource.amount, Reading.inSession_map, Functor.map_map]

theorem Monitor.values_call_of_no_container {m : Monitor σ α} (h : m.container = none)
    (call : Call) : Answer.values <$> m.call call = (m.host.values call).inSession := by
  rw [m.values_call, HostSource.values, Reading.inSession_mapM]
  exact congrArg (call.metrics.mapM ·) (funext (read_of_no_container h))

/-- The five files settle what the host reports. -/
theorem HostFiles.Agree.report_eq {host : HostFiles} {t t' : FileTree} (h : host.Agree t t') :
    (host.source t : HostSource LoadWindows α).report = (host.source t').report := by
  funext k
  cases k with
  | _ => simp only [HostSource.report, source, HostFiles.load, h.meminfo_eq, h.processStat_eq,
      h.sample_eq, h.openDescriptors_eq, h.onlineCpus_eq]

end Report

/-- A call, with the host and its files as they are then. -/
structure Visit where
  host : HostFiles
  tree : FileTree
  call : Call

namespace Visit

/-- What the call is of a monitor, with the files of a container if there is one. -/
def reading (α : Type) [LoadScale α] (group : Option Path) (visit : Visit) :
    Reading (Session LoadWindows) (Answer α) :=
  (linuxMonitor visit.host group visit.tree).call visit.call

/-- What the call is of the host alone. -/
def hostReading (α : Type) [LoadScale α] (visit : Visit) :
    Reading LoadWindows (List (MetricValue α)) :=
  (visit.host.source visit.tree).values visit.call

/-- The same call of the same host, over trees that agree in its five files. -/
structure Alike (v w : Visit) : Prop where
  call : v.call = w.call
  host : v.host = w.host
  files : v.host.Agree v.tree w.tree

variable [LoadScale α] {v w : Visit} {run run' : List Visit}

theorem Alike.reading_eq (h : Alike v w) : v.reading α none = w.reading α none := by
  obtain ⟨host, tree, call⟩ := v
  obtain ⟨host', tree', call'⟩ := w
  obtain ⟨rfl, rfl, hfiles⟩ := h
  apply Monitor.call_congr
  funext k
  have hreport := congrFun (hfiles.report_eq (α := α)) k
  calc (linuxMonitor host none tree).read k
      = ((host.source tree).report k).inSession := Monitor.read_of_no_container rfl k
    _ = ((host.source tree').report k).inSession := by rw [hreport]
    _ = (linuxMonitor host none tree').read k :=
        (Monitor.read_of_no_container (m := linuxMonitor host none tree') rfl k).symm

/-- Two runs of calls that are alike are one run of readings. -/
theorem readings_eq (h : List.Forall₂ Alike run run') :
    run.map (reading α none) = run'.map (reading α none) := by
  induction h with
  | nil => rfl
  | cons hvisit _ ih => rw [List.map_cons, List.map_cons, hvisit.reading_eq, ih]

theorem values_reading (v : Visit) :
    Answer.values <$> v.reading α none = (v.hostReading α).inSession :=
  Monitor.values_call_of_no_container rfl v.call

/-- A run of calls answers what the host alone does, in whatever session it starts. -/
theorem outcomes_values (run : List Visit) : ∀ s : Session LoadWindows,
    (Reading.outcomes (run.map (reading α none)) s).map (·.map Answer.values) =
      Reading.outcomes (run.map (hostReading α)) s.source := by
  induction run with
  | nil => exact fun s => rfl
  | cons v rest ih =>
      intro s
      have houtcome : ((v.reading α none).outcome s).map Answer.values =
          (v.hostReading α).outcome s.source := by
        rw [← Reading.outcome_map, values_reading, Reading.outcome_inSession]
      have hfinal : (v.reading α none).final s =
          { s with source := (v.hostReading α).final s.source } := by
        rw [← Reading.final_map Answer.values, values_reading, Reading.final_inSession]
      simp only [List.map_cons, Reading.outcomes, houtcome, hfinal, ih]

theorem outcomesAfter_values (first : Visit) (run : List Visit) (s : Session LoadWindows) :
    (Reading.outcomesAfter (first.reading α none) (run.map (reading α none)) s).map
        (·.map (·.map Answer.values)) =
      Reading.outcomesAfter (first.hostReading α) (run.map (hostReading α)) s.source := by
  rw [← Reading.outcomesAfter_map Answer.values, values_reading]
  unfold Reading.outcomesAfter
  cases h : first.hostReading α s.source with
  | ok values windows =>
      rw [Reading.inSession_ok h]
      exact congrArg Except.ok (outcomes_values run { s with source := windows })
  | error overflow windows =>
      rw [Reading.inSession_error h]
      rfl

end Visit

namespace Service

variable (config : Config) (limit : Counter) (system : SystemAccount)

/-- No container is looked for, or none is found. -/
def HostOnly (config : Config) (tree : FileTree) : Prop :=
  config.containerSupport = false ∨ ∃ cause, detectGroup tree config.procRoot = .error cause

theorem findGroup_eq_none_iff {config : Config} {tree : FileTree} :
    (findGroup config tree).1 = none ↔ HostOnly config tree := by
  unfold findGroup HostOnly
  cases config.containerSupport with
  | false => exact iff_of_true rfl (Or.inl rfl)
  | true =>
      cases detectGroup tree config.procRoot with
      | ok dir => simp
      | error cause => simp

/-- What a service answers from its start on, or the fault that it does not start for. -/
def wholeRun (first : FileTree) (run : List Visit) :
    Except Overflow (List (Except Overflow (Answer Binary64))) := do
  let (service, _) ← start config limit first system
  pure (Reading.outcomes (run.map (Visit.reading Binary64 service.group)) service.session)

/-- The call that a service starts with. -/
def firstVisit (first : FileTree) : Visit := ⟨hostFiles config limit system, first, .snapshot⟩

/-- What the host alone answers once it was asked for all metrics, or the fault that this ended
in. -/
def hostRun (first : FileTree) (run : List Visit) :
    Except Overflow (List (Except Overflow (List (MetricValue Binary64)))) :=
  Reading.outcomesAfter ((firstVisit config limit system first).hostReading Binary64)
    (run.map (Visit.hostReading Binary64)) {}

variable {config limit system} {first first' : FileTree} {run run' : List Visit}

/-- A service that is alone with its host runs without a container from its first call on. -/
theorem wholeRun_of_hostOnly (h : HostOnly config first) :
    wholeRun config limit system first run =
      Reading.outcomesAfter ((firstVisit config limit system first).reading Binary64 none)
        (run.map (Visit.reading Binary64 none)) { source := {} } := by
  have hgroup := findGroup_eq_none_iff.2 h
  have hfirst : (firstVisit config limit system first).reading Binary64 none = .snapshot <$>
      (linuxMonitor (hostFiles config limit system) none first : Monitor _ Binary64).snapshot := rfl
  rw [hfirst, Reading.outcomesAfter_map]
  unfold wholeRun start Reading.outcomesAfter
  cases hfound : findGroup config first with
  | mk group note =>
      rw [hfound] at hgroup
      cases hgroup
      dsimp only
      cases (linuxMonitor (hostFiles config limit system) none first :
          Monitor LoadWindows Binary64).snapshot { source := {} } with
      | ok snapshot session => rfl
      | error overflow session => rfl

/-- A service without a container is blind to all but five files of its host. -/
structure HostOnlyLaw (config : Config) (limit : Counter) (system : SystemAccount) : Prop where
  /-- It answers alike over trees that agree in these, from its start on. -/
  alike : ∀ {first first' : FileTree}, HostOnly config first → HostOnly config first' →
    (hostFiles config limit system).Agree first first' → ∀ {run run' : List Visit},
      List.Forall₂ Visit.Alike run run' →
        wholeRun config limit system first run = wholeRun config limit system first' run'
  /-- So does a run from any session, whatever the system itself says of its CPUs at each call. -/
  anywhere : ∀ {run run' : List Visit}, List.Forall₂ Visit.Alike run run' → ∀ s,
    Reading.outcomes (run.map (Visit.reading Binary64 none)) s =
      Reading.outcomes (run'.map (Visit.reading Binary64 none)) s
  /-- It answers what the host alone does. -/
  hostAlone : ∀ {first : FileTree}, HostOnly config first → ∀ run : List Visit,
    (wholeRun config limit system first run).map (·.map (·.map Answer.values)) =
      hostRun config limit system first run

theorem wholeRun_alike (h : HostOnly config first) (h' : HostOnly config first')
    (hfirst : (hostFiles config limit system).Agree first first')
    (hrun : List.Forall₂ Visit.Alike run run') :
    wholeRun config limit system first run = wholeRun config limit system first' run' := by
  have hvisit : Visit.Alike (firstVisit config limit system first)
      (firstVisit config limit system first') := ⟨rfl, rfl, hfirst⟩
  rw [wholeRun_of_hostOnly h, wholeRun_of_hostOnly h', hvisit.reading_eq, Visit.readings_eq hrun]

/-- The descriptors that a process has open. -/
def descriptorFiles (names : List String) : List (Path × Entry) :=
  names.map fun name => (Path.ofString ("/proc/self/fd/" ++ name), .file [])

/-- A host with the ticks of its CPUs. -/
def bareTree : FileTree :=
  FileTree.ofList
    ((Path.ofString "/proc/stat", .file (Path.ofString "cpu  300 0 0 100\n")) ::
      descriptorFiles ["0", "1"]) []

/-- The same host once the process is in a group that limits its memory. -/
def limitedTree : FileTree :=
  ((Path.ofString "/sys/fs/cgroup/app/memory.max", .file (Path.ofString "4096\n")) ::
    (Path.ofString "/proc/stat", .file (Path.ofString "cpu  300 0 0 100\n")) ::
      descriptorFiles ["1", "0"]).foldl (fun tree e => tree.write e.1 e.2) groupedTree

theorem agree_limitedTree : (hostFiles {} 1024 {}).Agree bareTree limitedTree where
  stat := by decide +kernel
  meminfo := by decide +kernel
  processStat := by decide +kernel
  descriptors := by
    have hbare : available (bareTree.list (Path.ofString "/proc/self/fd")) =
        some [Path.ofString "0", Path.ofString "1"] := by decide +kernel
    have hlimited : available (limitedTree.list (Path.ofString "/proc/self/fd")) =
        some [Path.ofString "1", Path.ofString "0"] := by decide +kernel
    change Option.Rel List.Perm (available (bareTree.list (Path.ofString "/proc/self/fd")))
      (available (limitedTree.list (Path.ofString "/proc/self/fd")))
    rw [hbare, hlimited]
    exact .some (List.Perm.swap _ _ [])
  online := by decide +kernel

end Service

end ResourceMetrics
