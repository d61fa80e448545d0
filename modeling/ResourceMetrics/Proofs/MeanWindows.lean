import Mathlib.Data.List.TakeWhile
import ResourceMetrics.Proofs.GetterRuns
import ResourceMetrics.Proofs.SetSpelling

/-! The mean load of a CPU set and the windows that it moves. The CPUs are read in ascending order
up to the first without a line, and each that is read has its window moved, whether or not the
others can be read. So a mean is set against windows that may have been moved at different calls:
each one at the latest call that came as far as its CPU. -/

namespace ResourceMetrics

open Reading

variable {α : Type}

/-- The windows of some CPUs are moved to new samples, and no others are. -/
structure Moves (cpus : List CpuIndex) (now : CpuIndex → CpuTicks)
    (windows windows' : LoadWindows) : Prop where
  moved : ∀ cpu ∈ cpus, windows'.last (.cpu cpu) = now cpu
  kept : ∀ key, (∀ cpu ∈ cpus, key ≠ .cpu cpu) → windows'.last key = windows.last key

theorem Moves.nil (now : CpuIndex → CpuTicks) (windows : LoadWindows) :
    Moves [] now windows windows := ⟨nofun, fun _ _ => rfl⟩

theorem Moves.cons {cpu : CpuIndex} {cpus : List CpuIndex} {now : CpuIndex → CpuTicks}
    {windows windows' : LoadWindows} (hcpu : cpu ∉ cpus)
    (h : Moves cpus now (windows.record (.cpu cpu) (now cpu)) windows') :
    Moves (cpu :: cpus) now windows windows' where
  moved := by
    refine List.forall_mem_cons.2 ⟨?_, h.moved⟩
    rw [h.kept (.cpu cpu) fun other hother heq => hcpu (LoadKey.cpu.inj heq ▸ hother),
      LoadWindows.last_record_self]
  kept key hkey := by
    obtain ⟨hne, hrest⟩ := List.forall_mem_cons.1 hkey
    rw [h.kept key hrest, LoadWindows.last_record_of_ne _ _ hne]

namespace Measure

variable [LoadScale α] {sample : CpuIndex → Option CpuTicks} {now : CpuIndex → CpuTicks}

/-- The load of a CPU since the sample that its window holds. -/
def loadOf (now : CpuIndex → CpuTicks) (windows : LoadWindows) (cpu : CpuIndex) : α :=
  (now cpu).loadSince (windows.last (.cpu cpu))

/-- Reading CPUs that have a sample moves their windows. As none comes twice, each load is measured
from the window as it was before the first of them. -/
theorem readSum_append {before : List CpuIndex} (hnodup : before.Nodup)
    (hnow : ∀ cpu ∈ before, sample cpu = some (now cpu)) (rest : List CpuIndex) :
    ∀ (sum : α) (windows : LoadWindows), ∃ windows', Moves before now windows windows' ∧
      readSum sample sum (before ++ rest) windows =
        readSum sample ((before.map (loadOf now windows)).foldl (· + ·) sum) rest windows' := by
  induction before with
  | nil => exact fun sum windows => ⟨windows, .nil now windows, rfl⟩
  | cons cpu before ih =>
      intro sum windows
      obtain ⟨hcpu, hnodup⟩ := List.nodup_cons.1 hnodup
      obtain ⟨hfirst, hbefore⟩ := List.forall_mem_cons.1 hnow
      obtain ⟨windows', hmoves, hrest⟩ := ih hnodup hbefore (sum + loadOf now windows cpu)
        (windows.record (.cpu cpu) (now cpu))
      refine ⟨windows', hmoves.cons hcpu, ?_⟩
      have hsame : before.map (loadOf now (windows.record (.cpu cpu) (now cpu))) =
          before.map (loadOf (α := α) now windows) := by
        refine List.map_congr_left fun other hother => ?_
        have hne : LoadKey.cpu other ≠ .cpu cpu := fun h => hcpu (LoadKey.cpu.inj h ▸ hother)
        rw [loadOf, LoadWindows.last_record_of_ne _ _ hne, loadOf]
      rw [hsame] at hrest
      rw [List.cons_append, readSum, hfirst, Reading.bind_ok (readWindow_some _ _ windows)]
      exact hrest

theorem readMean_of_all {cpus : List CpuIndex} (hne : cpus ≠ []) (hnodup : cpus.Nodup)
    (hnow : ∀ cpu ∈ cpus, sample cpu = some (now cpu)) (windows : LoadWindows) :
    ∃ windows', Moves cpus now windows windows' ∧ readMean cpus sample windows =
      .ok (some ((cpus.map (loadOf now windows)).foldl (· + ·) Load.zero /
        (LoadScale.ofNat cpus.length : α))) windows' := by
  obtain ⟨windows', hmoves, hsum⟩ := readSum_append (α := α) hnodup hnow [] Load.zero windows
  refine ⟨windows', hmoves, ?_⟩
  rw [List.append_nil] at hsum
  rw [readMean, if_neg (mt List.isEmpty_iff.1 hne), Reading.bind_ok (hsum.trans rfl)]
  rfl

/-- The windows of the CPU without a sample and of those behind it stay. -/
theorem readMean_of_gap {before after : List CpuIndex} {cpu : CpuIndex}
    (hnodup : (before ++ cpu :: after).Nodup)
    (hnow : ∀ cpu ∈ before, sample cpu = some (now cpu)) (hgap : sample cpu = none)
    (windows : LoadWindows) :
    ∃ windows', Moves before now windows windows' ∧
      (∀ other ∈ cpu :: after, windows'.last (.cpu other) = windows.last (.cpu other)) ∧
      readMean (before ++ cpu :: after) sample windows = .ok (none : Option α) windows' := by
  obtain ⟨hbefore, -, hapart⟩ := List.nodup_append.1 hnodup
  obtain ⟨windows', hmoves, hsum⟩ :=
    readSum_append (α := α) hbefore hnow (cpu :: after) Load.zero windows
  have hnone (sum : α) : readSum sample sum (cpu :: after) windows' = .ok none windows' := by
    rw [readSum, hgap]
    rfl
  refine ⟨windows', hmoves, fun other hother => hmoves.kept _ fun first hfirst h => ?_, ?_⟩
  · exact hapart first hfirst other hother (LoadKey.cpu.inj h).symm
  · rw [readMean, if_neg (by simp), Reading.bind_ok (hsum.trans (hnone _))]
    rfl

end Measure

namespace ControlGroup

/-- Neither a quota nor a weight that stands for shares is set, so the load is that of the set. -/
structure GoesBySet (dir : Path) (tree : FileTree) : Prop where
  noQuota : ¬QuotaActive dir tree
  noWeight : ¬WeightActive dir tree

variable {dir : Path} {tree : FileTree}

theorem not_quotaActive_iff : ¬QuotaActive dir tree ↔ positive? (quota dir tree) = none := by
  rw [quotaActive_iff, not_exists, Option.eq_none_iff_forall_ne_some]

theorem GoesBySet.shares_eq (h : GoesBySet dir tree) : shares dir tree = .ok none := by
  rcases shares_cases dir tree with ⟨-, w, hshows, hw, -⟩ | ⟨-, ⟨-, -, -, hactive⟩ | ⟨hnone, -⟩⟩
  · exact absurd ⟨w, hshows, hw⟩ h.noWeight
  · exact absurd hactive h.noWeight
  · exact hnone

theorem nodup_cpuSet (dir : Path) (tree : FileTree) : (cpuSet dir tree).Nodup :=
  (lists_cpuSet dir tree).nodup

/-- The set has as many CPUs as the host has online. -/
def Covers (host : HostFiles) (dir : Path) (tree : FileTree) : Prop :=
  (host.cpuCount tree (Path.ofString "online") host.systemOnlineCpus).map UInt32.toNat =
    some (cpuSet dir tree).length

instance (host : HostFiles) (dir : Path) (tree : FileTree) : Decidable (Covers host dir tree) :=
  inferInstanceAs (Decidable (_ = _))

end ControlGroup

namespace Monitor

open ControlGroup

variable [LoadScale α] {host : HostFiles} {dir : Path} {tree : FileTree}

theorem load_of_goesBySet (h : GoesBySet dir tree) :
    (linuxMonitor host (some dir) tree : Monitor LoadWindows α).load =
      if Covers host dir tree then (host.load tree .host).inSession
      else ((linuxMonitor host (some dir) tree).meanLoad (cpuSet dir tree)).inSession := by
  rw [load_of_noQuota host tree (not_quotaActive_iff.1 h.noQuota), h.shares_eq]
  change ((linuxMonitor host (some dir) tree).cpuSetLoad (source dir tree)).inSession = _
  rw [cpuSetLoad_eq]
  exact apply_ite Reading.inSession _ _ _

theorem meanLoad_of_shows {ticks : HostTicks} (h : host.ShowsTicks tree ticks)
    (cpus : List CpuIndex) : (linuxMonitor host (some dir) tree).meanLoad cpus =
      (Measure.readMean cpus ticks.cpu? : Reading LoadWindows (Option α)) := by
  have hticks : host.hostTicks tree = .ok (some ticks) := by rw [HostFiles.hostTicks, h]
  exact meanLoad_eq host (some dir) tree hticks cpus

/-- The number of CPUs online is never zero, so the whole host is covered by no empty set. -/
theorem load_of_no_cpus (h : GoesBySet dir tree) (hempty : cpuSet dir tree = [])
    (s : Session LoadWindows) :
    (linuxMonitor host (some dir) tree : Monitor LoadWindows α).load s = .ok none s := by
  have hcovers : ¬Covers host dir tree := fun hcovers => by
    obtain ⟨n, hn, hlength⟩ := Option.map_eq_some_iff.1 hcovers
    have hpos := UInt32.lt_iff_toNat_lt.1 (cpuCount_pos host tree hn)
    rw [hlength, hempty] at hpos
    cases hpos
  rw [load_of_goesBySet h, if_neg hcovers, hempty]
  rfl

/-- No window moves where the ticks cannot be read. -/
theorem load_of_unread (h : GoesBySet dir tree) (hover : ¬host.TicksOverflow tree)
    (hnone : ∀ ticks, ¬host.ShowsTicks tree ticks) (s : Session LoadWindows) :
    (linuxMonitor host (some dir) tree : Monitor LoadWindows α).load s = .ok none s := by
  rw [load_of_goesBySet h]
  split
  · exact inSession_ok (HostFiles.load_of_lacks (fun hhost => hover (by cases hhost; assumption))
      (.ticks hnone) s.source)
  · have hticks : host.hostTicks tree = .ok none := by
      rcases host.hostTicks_cases tree with ⟨ticks, -, hticks⟩ | ⟨hrun, -⟩ | ⟨fault, -, hfault⟩
      · exact absurd hticks (hnone ticks)
      · exact hrun
      · exact absurd hfault hover
    rw [meanLoad_eq host (some dir) tree hticks]
    apply inSession_ok
    cases cpuSet dir tree with
    | nil => rfl
    | cons cpu rest => rfl

theorem load_of_overflow (h : GoesBySet dir tree) (hne : cpuSet dir tree ≠ [])
    (hover : host.TicksOverflow tree) (s : Session LoadWindows) :
    ∃ overflow, (linuxMonitor host (some dir) tree : Monitor LoadWindows α).load s =
      .error overflow s := by
  rw [load_of_goesBySet h]
  split
  · obtain ⟨overflow, hload⟩ := HostFiles.load_of_overflows (α := α) (.host hover) s.source
    exact ⟨overflow, inSession_error hload⟩
  · obtain ⟨overflow, hticks⟩ := (host.hostTicks_error_iff tree).2 hover
    obtain ⟨cpu, rest, hcpus⟩ := List.exists_cons_of_ne_nil hne
    rw [hcpus, meanLoad_of_error host (some dir) tree hticks]
    exact ⟨overflow, rfl⟩

theorem load_of_covers {ticks : HostTicks} (h : GoesBySet dir tree) (hcovers : Covers host dir tree)
    (hticks : host.ShowsTicks tree ticks) (s : Session LoadWindows) :
    (linuxMonitor host (some dir) tree : Monitor LoadWindows α).load s =
      .ok (some (ticks.all.loadSince s.source.host))
        { s with source := s.source.record .host ticks.all } := by
  rw [load_of_goesBySet h, if_pos hcovers]
  exact inSession_ok (HostFiles.load_of_shows (.host hticks) s.source)

section Mean

variable {ticks : HostTicks} {now : CpuIndex → CpuTicks} (h : GoesBySet dir tree)
  (hcovers : ¬Covers host dir tree) (hticks : host.ShowsTicks tree ticks)

include h hcovers hticks

theorem load_of_all (hne : cpuSet dir tree ≠ [])
    (hnow : ∀ cpu ∈ cpuSet dir tree, ticks.cpu? cpu = some (now cpu)) (s : Session LoadWindows) :
    ∃ windows, Moves (cpuSet dir tree) now s.source windows ∧
      (linuxMonitor host (some dir) tree : Monitor LoadWindows α).load s =
        .ok (some (((cpuSet dir tree).map (Measure.loadOf now s.source)).foldl (· + ·) Load.zero /
          LoadScale.ofNat (cpuSet dir tree).length)) { s with source := windows } := by
  obtain ⟨windows, hmoves, hmean⟩ :=
    Measure.readMean_of_all (α := α) hne (nodup_cpuSet dir tree) hnow s.source
  refine ⟨windows, hmoves, ?_⟩
  rw [load_of_goesBySet h, if_neg hcovers, meanLoad_of_shows hticks]
  exact inSession_ok hmean

theorem load_of_gap {before after : List CpuIndex} {cpu : CpuIndex}
    (hset : cpuSet dir tree = before ++ cpu :: after)
    (hnow : ∀ cpu ∈ before, ticks.cpu? cpu = some (now cpu)) (hgap : ticks.cpu? cpu = none)
    (s : Session LoadWindows) :
    ∃ windows, Moves before now s.source windows ∧
      (∀ other ∈ cpu :: after, windows.last (.cpu other) = s.source.last (.cpu other)) ∧
      (linuxMonitor host (some dir) tree : Monitor LoadWindows α).load s =
        .ok none { s with source := windows } := by
  obtain ⟨windows, hmoves, hkept, hmean⟩ :=
    Measure.readMean_of_gap (α := α) (hset ▸ nodup_cpuSet dir tree) hnow hgap s.source
  refine ⟨windows, hmoves, hkept, ?_⟩
  rw [load_of_goesBySet h, if_neg hcovers, meanLoad_of_shows hticks, hset]
  exact inSession_ok hmean

end Mean

/-- By a quota or shares only the history moves. -/
theorem final_source_of_not_goesBySet (h : ¬GoesBySet dir tree) (s : Session LoadWindows) :
    ((linuxMonitor host (some dir) tree : Monitor LoadWindows α).load.final s).source =
      s.source := by
  cases hquota : positive? (quota dir tree) with
  | some quota =>
      rw [load_of_quota host tree hquota]
      rfl
  | none =>
      have hactive : WeightActive dir tree := by
        by_contra hweight
        exact h ⟨not_quotaActive_iff.2 hquota, hweight⟩
      rw [load_of_noQuota host tree hquota]
      rcases shares_cases dir tree with ⟨herror, -⟩ | ⟨hover, ⟨k, hk, hpos, -⟩ | ⟨-, hweight⟩⟩
      · rw [herror]
        rfl
      · have hshares : positive? (some k) = some k := positive?_eq_some_iff.2 ⟨rfl, hpos⟩
        obtain ⟨e, he, -⟩ := (capacity_stateless (α := α) host tree hover).inSession
        rw [hk]
        change ((loadByShares host tree dir (some k)).final s).source = _
        rw [loadByShares, hshares]
        dsimp only
        rw [he]
        cases e with
        | error overflow => rfl
        | ok total => rfl
      · exact absurd hactive hweight

end Monitor

namespace GetterCall

open ControlGroup

/-- A call moves the window under a key to a sample. -/
inductive Records (host : HostFiles) (group : Option Path) : GetterCall → LoadKey → CpuTicks → Prop
  | process {tree : FileTree} {sample : CpuTicks} : host.Shows tree .process sample →
      Records host group ⟨tree, .processLoad⟩ .process sample
  | host {tree : FileTree} {sample : CpuTicks} :
      (∀ dir, group = some dir → GoesBySet dir tree ∧ Covers host dir tree) →
        host.Shows tree .host sample → Records host group ⟨tree, .load⟩ .host sample
  /-- The CPUs of a set are read up to the first without a line. -/
  | cpu {tree : FileTree} {dir : Path} {ticks : HostTicks} {cpu : CpuIndex} {sample : CpuTicks} :
      group = some dir → GoesBySet dir tree → ¬Covers host dir tree → host.ShowsTicks tree ticks →
        cpu ∈ (cpuSet dir tree).takeWhile (fun cpu => (ticks.cpu? cpu).isSome) →
          ticks.cpu? cpu = some sample → Records host group ⟨tree, .load⟩ (.cpu cpu) sample

/-- The windows under which something is recorded hold it, and the others are as before. -/
structure Updates (records : LoadKey → CpuTicks → Prop) (windows windows' : LoadWindows) :
    Prop where
  recorded : ∀ key sample, records key sample → windows'.last key = sample
  kept : ∀ key, (∀ sample, ¬records key sample) → windows'.last key = windows.last key

theorem Updates.of_none {records : LoadKey → CpuTicks → Prop}
    (h : ∀ key sample, ¬records key sample) (windows : LoadWindows) :
    Updates records windows windows :=
  ⟨fun key sample hrecord => absurd hrecord (h key sample), fun _ _ => rfl⟩

variable [LoadScale α] {host : HostFiles} {group : Option Path}

theorem Updates.of_load {records : LoadKey → CpuTicks → Prop} {key : LoadKey} {tree : FileTree}
    (h : ∀ other sample, records other sample ↔ other = key ∧ host.Shows tree key sample)
    (windows : LoadWindows) : Updates records windows
      ((host.load tree key : Reading LoadWindows (Option α)).final windows) := by
  by_cases hshows : ∃ sample, host.Shows tree key sample
  · obtain ⟨sample, hsample⟩ := hshows
    rw [HostFiles.final_load_of_shows hsample]
    constructor
    · intro other sample' hrecord
      obtain ⟨rfl, hsample'⟩ := (h other sample').1 hrecord
      rw [LoadWindows.last_record_self, hsample.unique hsample']
    · intro other hnone
      have hne : other ≠ key := fun heq => hnone sample ((h other sample).2 ⟨heq, hsample⟩)
      exact LoadWindows.last_record_of_ne windows sample hne
  · have hnone := not_exists.1 hshows
    rw [HostFiles.final_load_of_not_shows hnone]
    exact .of_none (fun other sample hrecord => hnone sample ((h other sample).1 hrecord).2) _

theorem updates_processLoad (tree : FileTree) (s : Session LoadWindows) :
    Updates (Records host group ⟨tree, .processLoad⟩) s.source
      ((reading α host group ⟨tree, .processLoad⟩).final s).source := by
  have hfinal : ((reading α host group ⟨tree, .processLoad⟩).final s).source =
      (host.load tree .process : Reading LoadWindows (Option α)).final s.source := by
    simp only [reading, Monitor.read, Monitor.reportedProcessLoad, final_map, final_inSession]
    rfl
  rw [hfinal]
  refine .of_load (fun other sample => ⟨fun hrecord => ?_, ?_⟩) _
  · cases hrecord with
    | process hshows => exact ⟨rfl, hshows⟩
  · rintro ⟨rfl, hshows⟩
    exact .process hshows

theorem final_load (tree : FileTree) (s : Session LoadWindows) :
    (reading α host group ⟨tree, .load⟩).final s =
      (linuxMonitor host group tree : Monitor LoadWindows α).load.final s := by
  simp only [reading, Monitor.read, Monitor.reportedLoad, final_map]

/-- The load of the host moves its window alone. -/
theorem updates_hostLoad {tree : FileTree}
    (h : ∀ dir, group = some dir → GoesBySet dir tree ∧ Covers host dir tree)
    (hload : (linuxMonitor host group tree : Monitor LoadWindows α).load =
      (host.load tree .host).inSession) (s : Session LoadWindows) :
    Updates (Records host group ⟨tree, .load⟩) s.source
      ((reading α host group ⟨tree, .load⟩).final s).source := by
  rw [final_load, hload, final_inSession]
  refine .of_load (fun other sample => ⟨fun hrecord => ?_, ?_⟩) _
  · cases hrecord with
    | host _ hshows => exact ⟨rfl, hshows⟩
    | cpu hgroup _ hcovers _ _ _ => exact absurd (h _ hgroup).2 hcovers
  · rintro ⟨rfl, hshows⟩
    exact .host h hshows

theorem final_load_of_unread {tree : FileTree} {dir : Path} (h : GoesBySet dir tree)
    (hnone : ∀ ticks, ¬host.ShowsTicks tree ticks)
    (s : Session LoadWindows) :
    (linuxMonitor host (some dir) tree : Monitor LoadWindows α).load.final s = s := by
  by_cases hover : host.TicksOverflow tree
  · by_cases hempty : cpuSet dir tree = []
    · exact final_of_ok (Monitor.load_of_no_cpus h hempty s)
    · obtain ⟨overflow, hload⟩ := Monitor.load_of_overflow (α := α) h hempty hover s
      rw [final, hload]
  · exact final_of_ok (Monitor.load_of_unread h hover hnone s)

section Mean

variable {tree : FileTree} {dir : Path} (h : GoesBySet dir tree) (hcovers : ¬Covers host dir tree)

include h hcovers

/-- The load of a set moves the windows of its CPUs up to the first without a line. -/
theorem moves_load {ticks : HostTicks} (hticks : host.ShowsTicks tree ticks)
    {now : CpuIndex → CpuTicks}
    (hnow : ∀ cpu ∈ (cpuSet dir tree).takeWhile (fun cpu => (ticks.cpu? cpu).isSome),
      ticks.cpu? cpu = some (now cpu)) (s : Session LoadWindows) :
    Moves ((cpuSet dir tree).takeWhile fun cpu => (ticks.cpu? cpu).isSome) now s.source
      ((linuxMonitor host (some dir) tree : Monitor LoadWindows α).load.final s).source := by
  have hset := List.takeWhile_append_dropWhile (p := fun cpu => (ticks.cpu? cpu).isSome)
    (l := cpuSet dir tree)
  generalize (cpuSet dir tree).takeWhile (fun cpu => (ticks.cpu? cpu).isSome) = before at *
  cases hrest : (cpuSet dir tree).dropWhile fun cpu => (ticks.cpu? cpu).isSome with
  | nil =>
      rw [hrest, List.append_nil] at hset
      subst hset
      by_cases hempty : cpuSet dir tree = []
      · rw [final_of_ok (Monitor.load_of_no_cpus h hempty s), hempty]
        exact .nil now s.source
      · obtain ⟨windows, hmoves, hload⟩ :=
          Monitor.load_of_all (α := α) h hcovers hticks hempty hnow s
        rw [final_of_ok hload]
        exact hmoves
  | cons cpu after =>
      have hgap : ticks.cpu? cpu = none := by
        have hhead := List.head?_dropWhile_not (fun cpu => (ticks.cpu? cpu).isSome)
          (cpuSet dir tree)
        rw [hrest] at hhead
        simpa using hhead
      rw [hrest] at hset
      obtain ⟨windows, hmoves, -, hload⟩ :=
        Monitor.load_of_gap (α := α) h hcovers hticks hset.symm hnow hgap s
      rw [final_of_ok hload]
      exact hmoves

theorem updates_meanLoad (s : Session LoadWindows) :
    Updates (Records host (some dir) ⟨tree, .load⟩) s.source
      ((reading α host (some dir) ⟨tree, .load⟩).final s).source := by
  rw [final_load]
  by_cases hshows : ∃ ticks, host.ShowsTicks tree ticks
  · obtain ⟨ticks, hticks⟩ := hshows
    have hnow : ∀ cpu ∈ (cpuSet dir tree).takeWhile (fun cpu => (ticks.cpu? cpu).isSome),
        ticks.cpu? cpu = some ((ticks.cpu? cpu).getD {}) := fun cpu hcpu => by
      obtain ⟨sample, hsample⟩ := Option.isSome_iff_exists.1
        (List.mem_takeWhile_imp (p := fun cpu => (ticks.cpu? cpu).isSome) hcpu)
      rw [hsample, Option.getD_some]
    have hmoves := moves_load (α := α) h hcovers hticks hnow s
    constructor
    · intro key sample hrecord
      cases hrecord with
      | host hset _ => exact absurd (hset dir rfl).2 hcovers
      | cpu hgroup _ _ hticks' hcpu hsample =>
          obtain rfl := Option.some.inj hgroup
          obtain rfl := hticks.unique hticks'
          rw [hmoves.moved _ hcpu, hsample]
          rfl
    · intro key hnone
      refine hmoves.kept key fun cpu hcpu hkey => ?_
      subst hkey
      exact hnone _ (.cpu rfl h hcovers hticks hcpu (hnow cpu hcpu))
  · have hnone := not_exists.1 hshows
    rw [final_load_of_unread h hnone]
    refine .of_none (fun key sample hrecord => ?_) _
    cases hrecord with
    | host hset _ => exact hcovers (hset dir rfl).2
    | cpu _ _ _ hticks _ _ => exact hnone _ hticks

end Mean

theorem updates_load (tree : FileTree) (s : Session LoadWindows) :
    Updates (Records host group ⟨tree, .load⟩) s.source
      ((reading α host group ⟨tree, .load⟩).final s).source := by
  cases group with
  | none => exact updates_hostLoad (fun dir hdir => by cases hdir) rfl s
  | some dir =>
      by_cases h : GoesBySet dir tree
      · by_cases hcovers : Covers host dir tree
        · refine updates_hostLoad (fun dir' hdir => Option.some.inj hdir ▸ ⟨h, hcovers⟩) ?_ s
          rw [Monitor.load_of_goesBySet h, if_pos hcovers]
        · exact updates_meanLoad h hcovers s
      · rw [final_load, Monitor.final_source_of_not_goesBySet h]
        refine .of_none (fun key sample hrecord => h ?_) _
        cases hrecord with
        | host hset _ => exact (hset dir rfl).1
        | cpu hgroup hset _ _ _ _ => exact Option.some.inj hgroup ▸ hset

/-- What one call does to the windows. -/
theorem updates_final (call : GetterCall) (s : Session LoadWindows) :
    Updates (call.Records host group) s.source ((call.reading α host group).final s).source := by
  obtain ⟨tree, metric⟩ := call
  by_cases hload : metric.IsLoad
  · rcases hload with rfl | rfl
    · exact updates_load tree s
    · exact updates_processLoad tree s
  · have hsame : (reading α host group ⟨tree, metric⟩).final s = s :=
      (Monitor.read_stateless host group tree hload).final s
    rw [hsame]
    refine .of_none (fun key sample hrecord => hload ?_) _
    cases hrecord with
    | process => exact Or.inr rfl
    | host => exact Or.inl rfl
    | cpu => exact Or.inl rfl

variable (α) (host group)

theorem sessionAfter_append (front run : List GetterCall) (s : Session LoadWindows) :
    sessionAfter α host group (front ++ run) s =
      sessionAfter α host group run (sessionAfter α host group front s) := by
  induction front generalizing s with
  | nil => rfl
  | cons call front ih => exact ih _

variable {host group}

/-- A window under which no call of a run records stays. -/
theorem last_sessionAfter_of_none {run : List GetterCall} {key : LoadKey}
    (h : ∀ call ∈ run, ∀ sample, ¬call.Records host group key sample) (s : Session LoadWindows) :
    (sessionAfter α host group run s).source.last key = s.source.last key := by
  induction run generalizing s with
  | nil => rfl
  | cons call run ih =>
      obtain ⟨hcall, hrun⟩ := List.forall_mem_cons.1 h
      calc (sessionAfter α host group run ((call.reading α host group).final s)).source.last key
          = ((call.reading α host group).final s).source.last key := ih hrun _
        _ = s.source.last key := (updates_final call s).kept key hcall

/-- After a run each window holds the sample of the latest call that recorded one. -/
theorem last_sessionAfter {front after : List GetterCall} {call : GetterCall} {key : LoadKey}
    {sample : CpuTicks} (hrecord : call.Records host group key sample)
    (hafter : ∀ call ∈ after, ∀ sample, ¬call.Records host group key sample)
    (s : Session LoadWindows) :
    (sessionAfter α host group (front ++ call :: after) s).source.last key = sample := by
  rw [sessionAfter_append, sessionAfter, last_sessionAfter_of_none α hafter]
  exact (updates_final call _).recorded key sample hrecord

end GetterCall

open ControlGroup GetterCall

/-- The load of a container by its CPU set, and the windows that it moves. -/
structure MeanLaw (α : Type) [LoadScale α] (host : HostFiles) (dir : Path) : Prop where
  ascending : ∀ tree, (cpuSet dir tree).Pairwise (· < ·)
  /-- All CPUs of the set have a line. -/
  all : ∀ {tree : FileTree} {ticks : HostTicks} {now : CpuIndex → CpuTicks}, GoesBySet dir tree →
    ¬Covers host dir tree → cpuSet dir tree ≠ [] → host.ShowsTicks tree ticks →
      (∀ cpu ∈ cpuSet dir tree, ticks.cpu? cpu = some (now cpu)) → ∀ s : Session LoadWindows,
        ∃ (windows : LoadWindows) (loads : CpuIndex → α),
          (∀ cpu ∈ cpuSet dir tree,
            HostFiles.LoadBetween (s.source.last (.cpu cpu)) (now cpu) (loads cpu)) ∧
          (linuxMonitor host (some dir) tree).load s =
            .ok (some (((cpuSet dir tree).map loads).foldl (· + ·) Load.zero /
              LoadScale.ofNat (cpuSet dir tree).length)) { s with source := windows } ∧
          Moves (cpuSet dir tree) now s.source windows
  /-- A CPU has no line, and those before it have one. -/
  gap : ∀ {tree : FileTree} {ticks : HostTicks} {now : CpuIndex → CpuTicks}
    {before after : List CpuIndex} {cpu : CpuIndex}, GoesBySet dir tree →
      ¬Covers host dir tree → cpuSet dir tree = before ++ cpu :: after →
        host.ShowsTicks tree ticks → (∀ cpu ∈ before, ticks.cpu? cpu = some (now cpu)) →
          ticks.cpu? cpu = none → ∀ s : Session LoadWindows, ∃ windows : LoadWindows,
            (linuxMonitor host (some dir) tree : Monitor LoadWindows α).load s =
              .ok none { s with source := windows } ∧
            Moves before now s.source windows ∧
            ∀ other ∈ cpu :: after, windows.last (.cpu other) = s.source.last (.cpu other)
  covered : ∀ {tree : FileTree} {ticks : HostTicks}, GoesBySet dir tree → Covers host dir tree →
    host.ShowsTicks tree ticks → ∀ s : Session LoadWindows,
      ∃ (windows : LoadWindows) (load : α),
        HostFiles.LoadBetween (s.source.last .host) ticks.all load ∧
        (linuxMonitor host (some dir) tree).load s =
          .ok (some load) { s with source := windows } ∧
        windows.last .host = ticks.all ∧
        ∀ key ≠ .host, windows.last key = s.source.last key
  unread : ∀ {tree : FileTree}, GoesBySet dir tree → ¬host.TicksOverflow tree →
    (∀ ticks, ¬host.ShowsTicks tree ticks) → ∀ s : Session LoadWindows,
      (linuxMonitor host (some dir) tree : Monitor LoadWindows α).load s = .ok none s
  overflow : ∀ {tree : FileTree}, GoesBySet dir tree → cpuSet dir tree ≠ [] →
    host.TicksOverflow tree → ∀ s : Session LoadWindows, ∃ overflow,
      (linuxMonitor host (some dir) tree : Monitor LoadWindows α).load s = .error overflow s
  /-- A window holds the sample of the latest call that recorded one under its key. -/
  latest : ∀ {front after : List GetterCall} {call : GetterCall} {key : LoadKey}
    {sample : CpuTicks}, call.Records host (some dir) key sample →
      (∀ call ∈ after, ∀ sample, ¬call.Records host (some dir) key sample) →
        ∀ s : Session LoadWindows,
          (sessionAfter α host (some dir) (front ++ call :: after) s).source.last key = sample
  never : ∀ {run : List GetterCall} {key : LoadKey},
    (∀ call ∈ run, ∀ sample, ¬call.Records host (some dir) key sample) →
      ∀ s : Session LoadWindows,
        (sessionAfter α host (some dir) run s).source.last key = s.source.last key

theorem goesBySet_of_files {dir : Path} {tree : FileTree}
    (hquota : positive? (quota dir tree) = none)
    (hweight : file? tree dir "cpu.weight" CpuWeight.read = none) : GoesBySet dir tree where
  noQuota := not_quotaActive_iff.2 hquota
  noWeight := by
    rintro ⟨w, hshows, -⟩
    exact not_shows_of_file?_eq_none hweight w hshows

/-- Four CPUs are online, of which the container has three, and the third has no line. -/
def gapTree : FileTree :=
  cpuTree "cpu  300 0 0 300 0 0 0 0\ncpu0 100 0 0 100 0 0 0 0\ncpu1 50 0 0 150 0 0 0 0\n" "0-3\n"
    "0-2\n"

/-- The same some time later, when each of them has a line. -/
def fullTree : FileTree :=
  cpuTree ("cpu  600 0 0 600 0 0 0 0\ncpu0 200 0 0 200 0 0 0 0\ncpu1 100 0 0 300 0 0 0 0\n" ++
    "cpu2 300 0 0 100 0 0 0 0\n") "0-3\n" "0-2\n"

def gapTicks : HostTicks := ⟨⟨300, 600⟩, [(0, ⟨100, 200⟩), (1, ⟨50, 200⟩)]⟩

def fullTicks : HostTicks := ⟨⟨600, 1200⟩, [(0, ⟨200, 400⟩), (1, ⟨100, 400⟩), (2, ⟨300, 400⟩)]⟩

theorem showsTicks_gapTree : HostFiles.relative.ShowsTicks gapTree gapTicks := by
  unfold HostFiles.ShowsTicks
  cbv

theorem showsTicks_fullTree : HostFiles.relative.ShowsTicks fullTree fullTicks := by
  unfold HostFiles.ShowsTicks
  cbv

theorem goesBySet_cpuTree (stat online effective : String) :
    GoesBySet smallGroup (cpuTree stat online effective) := by
  unfold cpuTree
  generalize Path.ofString stat = stat, Path.ofString online = online,
    Path.ofString effective = effective
  exact goesBySet_of_files (by cbv) (by cbv)

theorem cpuSet_threeOfFour (stat : String) :
    cpuSet smallGroup (cpuTree stat "0-3\n" "0-2\n") = [0, 1, 2] := by
  have heffective : cpus smallGroup (cpuTree stat "0-3\n" "0-2\n") "cpuset.cpus.effective" =
      [0, 1, 2] := by
    unfold cpuTree
    generalize Path.ofString stat = stat
    cbv
  rw [cpuSet, heffective]
  rfl

theorem not_covers_threeOfFour (stat : String) :
    ¬Covers HostFiles.relative smallGroup (cpuTree stat "0-3\n" "0-2\n") := by
  have hcount : HostFiles.relative.cpuCount (cpuTree stat "0-3\n" "0-2\n")
      (Path.ofString "online") HostFiles.relative.systemOnlineCpus = some 4 := by
    unfold cpuTree
    generalize Path.ofString stat = stat
    cbv
  rw [Covers, hcount, cpuSet_threeOfFour]
  decide

end ResourceMetrics
