import Mathlib.Algebra.Order.Field.Rat
import Mathlib.Tactic.Linarith
import ResourceMetrics.Service
import ResourceMetrics.Proofs.HostWindows

/-! The range of what is reported, over runs in which the sources change at will. Loads lie in the
unit interval or are reported as -1, by exact arithmetic. None of this depends on the history: a
ratio is clamped whatever samples it is taken against, and a mean of loads in the unit interval lies
in it. A monitor itself never faults, so it answers wherever its sources do. -/

namespace ResourceMetrics

variable {σ α : Type} {fault : Prop}

def InUnit (x : Rat) : Prop := 0 ≤ x ∧ x ≤ 1

theorem inUnit_zero : InUnit (Load.zero : Rat) := by
  constructor <;> decide

theorem inUnit_clamp (x : Rat) : InUnit (Load.clamp x) := by
  have hzero : (Load.zero : Rat) = 0 := rfl
  have hone : (Load.one : Rat) = 1 := rfl
  unfold Load.clamp InUnit
  rw [hzero, hone]
  dsimp only
  by_cases hneg : x < 0
  · rw [if_pos hneg, if_neg (by decide)]
    constructor <;> decide
  · rw [if_neg hneg]
    by_cases hbig : 1 < x
    · rw [if_pos hbig]
      constructor <;> decide
    · rw [if_neg hbig]
      exact ⟨not_lt.1 hneg, not_lt.1 hbig⟩

/-- The sum of some loads in the unit interval lies between zero and their number. -/
theorem inUnit_mean {sum : Rat} {count : Nat} (hsum : 0 ≤ sum)
    (hle : sum ≤ count) : InUnit (Load.mean sum count) := by
  have hpos : (0 : Rat) ≤ count := Nat.cast_nonneg count
  exact ⟨div_nonneg hsum hpos, div_le_one_of_le₀ hle hpos⟩

theorem inUnit_loadBetween {last now : CpuTicks} {load : Rat}
    (h : HostFiles.LoadBetween last now load) : InUnit load := by
  by_cases hgrown : last.total < now.total
  · rw [h.grown hgrown]
    exact inUnit_clamp _
  · rw [h.stalled (UInt64.not_lt.1 hgrown)]
    exact inUnit_zero

/-- A load of the unit interval, if there is one. -/
def UnitLoad (load : Option Rat) : Prop := ∀ x, load = some x → InUnit x

theorem unitLoad_none : UnitLoad none := nofun

theorem unitLoad_some {x : Rat} (h : InUnit x) : UnitLoad (some x) := by
  rintro _ ⟨rfl⟩
  exact h

theorem unitLoad_load? (last : LoadHistory) (usage total : Option Counter) :
    UnitLoad (last.load? usage total) := by
  intro x hx
  unfold LoadHistory.load? at hx
  simp only [bind, pure, Option.bind_eq_some_iff, Option.some.injEq] at hx
  obtain ⟨u, -, t, -, rfl⟩ := hx
  split
  · exact inUnit_clamp _
  · exact inUnit_zero

/-- A reading that answers, whatever it is. It faults only if `fault` holds. -/
abbrev Returns {β : Type} (fault : Prop) (r : Reading σ β) : Prop := r.Gives fault fun _ => True

/-- The loads of the host lie in the unit interval if they are known. No reading faults unless
`fault` holds. -/
structure HostSource.InRange (fault : Prop) (host : HostSource σ Rat) : Prop where
  amounts : ∀ r ∈ [host.totalSwap, host.freeSwap, host.totalMemory, host.freeMemory,
    host.committedMemory, host.openDescriptors, host.maxDescriptors], Returns fault r
  totalTime : Returns fault host.totalTime
  processTime : Returns fault host.processTime
  onlineCpus : Returns fault host.onlineCpus
  configuredCpus : Returns fault host.configuredCpus
  load : host.load.Gives fault UnitLoad
  cpuLoad : ∀ cpu, (host.cpuLoad cpu).Gives fault UnitLoad
  processLoad : host.processLoad.Gives fault UnitLoad

structure ContainerSource.Return (fault : Prop) (container : ContainerSource σ) : Prop where
  amounts : ∀ r ∈ [container.memoryLimit, container.combinedLimit, container.memoryUsage,
    container.combinedUsage, container.quota, container.period, container.elapsedPeriods,
    container.cpuUsage], Returns fault r
  shares : Returns fault container.shares
  configuredCpus : Returns fault container.configuredCpus
  effectiveCpus : Returns fault container.effectiveCpus

theorem HostSource.InRange.weaken {fault' : Prop} {host : HostSource σ Rat}
    (h : host.InRange fault) (hfault : fault → fault') : host.InRange fault' where
  amounts r hr := (h.amounts r hr).weaken hfault
  totalTime := h.totalTime.weaken hfault
  processTime := h.processTime.weaken hfault
  onlineCpus := h.onlineCpus.weaken hfault
  configuredCpus := h.configuredCpus.weaken hfault
  load := h.load.weaken hfault
  cpuLoad cpu := (h.cpuLoad cpu).weaken hfault
  processLoad := h.processLoad.weaken hfault

theorem ContainerSource.Return.weaken {fault' : Prop} {container : ContainerSource σ}
    (h : container.Return fault) (hfault : fault → fault') : container.Return fault' where
  amounts r hr := (h.amounts r hr).weaken hfault
  shares := h.shares.weaken hfault
  configuredCpus := h.configuredCpus.weaken hfault
  effectiveCpus := h.effectiveCpus.weaken hfault

structure Monitor.InRange (fault : Prop) (m : Monitor σ Rat) : Prop where
  host : m.host.InRange fault
  container : ∀ container, m.container = some container → container.Return fault

/-- The readings of the host answer, whatever they are. -/
structure HostSource.Return (fault : Prop) (host : HostSource σ α) : Prop where
  amounts : ∀ r ∈ [host.totalSwap, host.freeSwap, host.totalMemory, host.freeMemory,
    host.committedMemory, host.openDescriptors, host.maxDescriptors], Returns fault r
  totalTime : Returns fault host.totalTime
  processTime : Returns fault host.processTime
  onlineCpus : Returns fault host.onlineCpus
  load : Returns fault host.load
  cpuLoad : ∀ cpu, Returns fault (host.cpuLoad cpu)
  processLoad : Returns fault host.processLoad

structure Monitor.Return (fault : Prop) (m : Monitor σ α) : Prop where
  host : m.host.Return fault
  container : ∀ container, m.container = some container → container.Return fault

theorem Reading.Gives.returns {β : Type} {r : Reading σ β} {P : β → Prop} (h : r.Gives fault P) :
    Returns fault r :=
  Triple.mono h fun _ _ _ => trivial

theorem Monitor.InRange.returns {m : Monitor σ Rat} (h : m.InRange fault) : m.Return fault where
  host :=
    { amounts := h.host.amounts
      totalTime := h.host.totalTime
      processTime := h.host.processTime
      onlineCpus := h.host.onlineCpus
      load := h.host.load.returns
      cpuLoad := fun cpu => (h.host.cpuLoad cpu).returns
      processLoad := h.host.processLoad.returns }
  container := h.container

/-- What one reading does not answer is left to another. -/
theorem Returns.fallback {β : Type} {x : Reading σ (Option β)}
    {f : Option β → Reading σ (Option β)} (hx : Returns fault x)
    (hsome : ∀ b, f (some b) = pure (some b)) (hnone : Returns fault (f none)) :
    Returns fault (x >>= f) := by
  apply Reading.Gives.bind hx
  intro b _
  cases b with
  | some b =>
      rw [hsome b]
      exact .pure trivial
  | none => exact hnone

theorem Returns.retry {β : Type} {attempt : Reading σ (Option β)}
    (h : Returns fault attempt) (attempts : Nat) : Returns fault (attempt.retry attempts) := by
  induction attempts with
  | zero => exact .pure trivial
  | succ attempts ih => exact h.fallback (fun _ => rfl) ih

namespace ContainerSource.Return

variable {container : ContainerSource σ} (h : container.Return fault)

include h

theorem swapLimit : Returns fault container.swapLimit := by
  apply Reading.Gives.bind (h.amounts container.combinedLimit (by simp))
  intro combined _
  cases combined with
  | none => exact .pure trivial
  | some combined =>
      apply Reading.Gives.bind (h.amounts container.memoryLimit (by simp))
      intro memory _
      cases memory with
      | none => exact .pure trivial
      | some memory => exact .pure trivial

theorem sampleFreeSwap (limit : Counter) : Returns fault (container.sampleFreeSwap limit) := by
  apply Reading.Gives.bind (h.amounts container.combinedUsage (by simp))
  intro combined _
  cases positive? combined with
  | none => exact .pure trivial
  | some combined =>
      apply Reading.Gives.bind (h.amounts container.memoryUsage (by simp))
      intro memory _
      cases positive? memory with
      | none => exact .pure trivial
      | some memory => exact .pure trivial

theorem freeMemory : Returns fault container.freeMemory := by
  apply Reading.Gives.bind (h.amounts container.memoryUsage (by simp))
  intro usage _
  cases positive? usage with
  | none => exact .pure trivial
  | some usage =>
      apply Reading.Gives.bind (h.amounts container.memoryLimit (by simp))
      intro limit _
      cases limit with
      | none => exact .pure trivial
      | some limit => exact .pure trivial

theorem cpuSet : Returns fault container.cpuSet := by
  apply Reading.Gives.bind h.effectiveCpus
  intro effective _
  split
  · exact h.configuredCpus
  · exact .pure trivial

end ContainerSource.Return

namespace Monitor.Return

variable {m : Monitor σ α} (h : m.Return fault)

include h

theorem totalSwap : Returns fault m.totalSwap := by
  have hhost := h.host.amounts m.host.totalSwap (by simp)
  unfold Monitor.totalSwap
  cases hm : m.container with
  | none => exact hhost
  | some container =>
      have hlimit := (h.container container hm).swapLimit
      exact hlimit.fallback (fun _ => rfl) hhost

theorem freeSwap : Returns fault m.freeSwap := by
  have hhost := h.host.amounts m.host.freeSwap (by simp)
  unfold Monitor.freeSwap
  cases hm : m.container with
  | none => exact hhost
  | some container =>
      have hcontainer := h.container container hm
      apply Reading.Gives.bind (hcontainer.amounts container.combinedLimit (by simp))
      intro combined _
      apply Reading.Gives.bind (hcontainer.amounts container.memoryLimit (by simp))
      intro memory _
      split
      · split
        · exact .pure trivial
        · rename_i limit _
          have hattempt := hcontainer.sampleFreeSwap limit
          exact (hattempt.retry _).fallback (fun _ => rfl) hhost
      · exact hhost

theorem totalMemory : Returns fault m.totalMemory := by
  have hhost := h.host.amounts m.host.totalMemory (by simp)
  unfold Monitor.totalMemory
  cases hm : m.container with
  | none => exact hhost
  | some container =>
      have hlimit := (h.container container hm).amounts container.memoryLimit (by simp)
      exact hlimit.fallback (fun _ => rfl) hhost

theorem freeMemory : Returns fault m.freeMemory := by
  have hhost := h.host.amounts m.host.freeMemory (by simp)
  unfold Monitor.freeMemory
  cases hm : m.container with
  | none => exact hhost
  | some container =>
      have hfree := (h.container container hm).freeMemory
      exact hfree.fallback (fun _ => rfl) hhost

theorem availableProcessors : m.availableProcessors.Gives fault fun n => 1 ≤ n := by
  apply Reading.Gives.bind h.host.onlineCpus
  intro online _
  cases hm : m.container with
  | none => exact .pure (one_le_max _)
  | some container =>
      have hcontainer := h.container container hm
      apply Reading.Gives.bind hcontainer.cpuSet
      intro cpus _
      apply Reading.Gives.bind hcontainer.shares
      intro shares _
      apply Reading.Gives.bind (hcontainer.amounts container.quota (by simp))
      intro quota _
      cases positive? quota with
      | none => exact .pure (one_le_max _)
      | some quota =>
          apply Reading.Gives.bind (hcontainer.amounts container.period (by simp))
          intro period _
          exact .pure (one_le_max _)

theorem capacity : Returns fault m.capacity := by
  apply Reading.Gives.bind h.host.totalTime
  intro time _
  cases time with
  | none => exact .pure trivial
  | some time =>
      apply Reading.Gives.bind h.host.onlineCpus
      intro online _
      cases online.filter (0 < ·) with
      | none => exact .pure trivial
      | some online =>
          apply Reading.Gives.bind h.availableProcessors
          intro cpus _
          exact .pure trivial

end Monitor.Return

/-- What a property of loads needs so that a monitor passes it on from its host: loads by the
history have it, and so has the mean of loads that have it, by what their sums have. -/
structure LoadInvariant [LoadScale α] (P : Option α → Prop) (Q : Nat → α → Prop) : Prop where
  unknown : P none
  history : ∀ (last : LoadHistory) (usage total : Option Counter), P (last.load? usage total)
  zero : Q 0 Load.zero
  add : ∀ {n : Nat} {sum load : α}, Q n sum → P (some load) → Q (n + 1) (sum + load)
  mean : ∀ {n : Nat} {sum : α}, Q n sum → P (some (Load.mean sum n))

/-- Each load of the unit interval moves the sum by one at most. -/
theorem unitLoad_invariant : LoadInvariant UnitLoad fun n sum => 0 ≤ sum ∧ sum ≤ n where
  unknown := unitLoad_none
  history := unitLoad_load?
  zero := ⟨Rat.le_refl, Rat.le_refl⟩
  add {n sum load} hsum hload := by
    obtain ⟨hnonneg, hle⟩ := hload load rfl
    obtain ⟨hlow, hhigh⟩ := hsum
    rw [Nat.cast_succ]
    constructor <;> linarith
  mean hsum := unitLoad_some (inUnit_mean hsum.1 hsum.2)

theorem loadInvariant_true [LoadScale α] :
    LoadInvariant (fun _ : Option α => True) fun _ _ => True where
  unknown := trivial
  history _ _ _ := trivial
  zero := trivial
  add _ _ := trivial
  mean _ := trivial

namespace Monitor

variable [LoadScale α] {m : Monitor σ α} {P : Option α → Prop} {Q : Nat → α → Prop}

theorem sumLoads_gives (inv : LoadInvariant P Q)
    (hcpu : ∀ cpu, (m.host.cpuLoad cpu).Gives fault P) (cpus : List CpuIndex) :
    ∀ {n : Nat} {start : α}, Q n start → (m.sumLoads start cpus).Gives fault fun sum =>
      ∀ x, sum = some x → Q (n + cpus.length) x := by
  induction cpus with
  | nil =>
      intro n start hstart
      refine .pure ?_
      rintro x ⟨rfl⟩
      exact hstart
  | cons cpu rest ih =>
      intro n start hstart
      apply Reading.Gives.bind (hcpu cpu)
      intro load hload
      cases load with
      | none => exact .pure nofun
      | some load =>
          rw [List.length_cons, Nat.add_comm rest.length, ← Nat.add_assoc]
          exact ih (inv.add hstart hload)

theorem meanLoad_gives (inv : LoadInvariant P Q)
    (hcpu : ∀ cpu, (m.host.cpuLoad cpu).Gives fault P) (cpus : List CpuIndex) :
    (m.meanLoad cpus).Gives fault P := by
  unfold Monitor.meanLoad
  split
  · exact .pure inv.unknown
  · apply Reading.Gives.bind (sumLoads_gives inv hcpu cpus inv.zero)
    intro sum hsum
    refine .pure ?_
    cases sum with
    | none => exact inv.unknown
    | some x =>
        have hx := hsum x rfl
        rw [Nat.zero_add] at hx
        exact inv.mean hx

namespace Return

variable (h : m.Return fault) (inv : LoadInvariant P Q) (hload : m.host.load.Gives fault P)
  (hcpu : ∀ cpu, (m.host.cpuLoad cpu).Gives fault P)

include h inv hload hcpu

theorem cpuSetLoad_gives {container : ContainerSource σ} (hm : m.container = some container) :
    (m.cpuSetLoad container).Gives fault P := by
  apply Reading.Gives.bind (h.container container hm).cpuSet
  intro cpus _
  apply Reading.Gives.bind h.host.onlineCpus
  intro online _
  split
  · exact hload
  · exact meanLoad_gives inv hcpu cpus

/-- On every path the load has what those of the host have, whatever the history holds. -/
theorem load_gives : m.load.Gives fault P := by
  have hadvance (usage total : Option Counter) :
      (Monitor.advance usage total : Reading (Session σ) (Option α)).Gives fault P :=
    fun s _ => inv.history s.history usage total
  unfold Monitor.load
  cases hm : m.container with
  | none => exact .inSession hload
  | some container =>
      have hcontainer := h.container container hm
      have husage := hcontainer.amounts container.cpuUsage (by simp)
      apply Reading.Gives.bind (.inSession (hcontainer.amounts container.quota (by simp)))
      intro quota _
      cases positive? quota with
      | some quota =>
          apply Reading.Gives.bind (.inSession husage)
          intro usage _
          have hperiods := hcontainer.amounts container.elapsedPeriods (by simp)
          apply Reading.Gives.bind (.inSession hperiods)
          intro periods _
          exact hadvance usage _
      | none =>
          apply Reading.Gives.bind (.inSession hcontainer.shares)
          intro shares _
          cases positive? shares with
          | some shares =>
              apply Reading.Gives.bind (.inSession husage)
              intro usage _
              apply Reading.Gives.bind (.inSession h.capacity)
              intro capacity _
              exact hadvance usage capacity
          | none => exact .inSession (h.cpuSetLoad_gives inv hload hcpu hm)

end Return

theorem InRange.load {m : Monitor σ Rat} (h : m.InRange fault) : m.load.Gives fault UnitLoad :=
  h.returns.load_gives unitLoad_invariant h.host.load h.host.cpuLoad

end Monitor

/-- The amount that a metric reports, for those that report one. -/
def Monitor.amount? (m : Monitor σ Rat) : Metric → Option (Reading σ (Option Counter))
  | .totalSwap => some m.totalSwap
  | .freeSwap => some m.freeSwap
  | .totalMemory => some m.totalMemory
  | .freeMemory => some m.freeMemory
  | .processTime => some m.host.processTime
  | .committedMemory => some m.host.committedMemory
  | .openDescriptors => some m.host.openDescriptors
  | .maxDescriptors => some m.host.maxDescriptors
  | .containerPresent | .availableProcessors | .load | .processLoad => none

/-- What a call may report that leads from one session to another. An amount goes by the one that
is underneath. -/
inductive Reported (m : Monitor σ Rat) (s s' : Session σ) : Metric → MetricValue Rat → Prop
  | containerPresent : Reported m s s' .containerPresent (.flag m.container.isSome)
  | processors {n : UInt32} : 1 ≤ n → Reported m s s' .availableProcessors (.processors n)
  | load {x : Rat} : x = -1 ∨ InUnit x → Reported m s s' .load (.load x)
  | processLoad {x : Rat} : x = -1 ∨ InUnit x → Reported m s s' .processLoad (.load x)
  | amount {metric : Metric} {r : Reading σ (Option Counter)} {v : Option Counter} {n : Int} :
      m.amount? metric = some r → r s.source = .ok v s'.source → (n = -1 ↔ v = none) →
        (∀ c, v = some c → 0 ≤ n ∧ n = min (c.toNat : Int) (2 ^ 63 - 1)) →
          Reported m s s' metric (.amount n)

theorem reportLoad_cases {load : Option Rat} (h : UnitLoad load) :
    reportLoad load = -1 ∨ InUnit (reportLoad load) := by
  cases load with
  | none => exact Or.inl rfl
  | some x => exact Or.inr (h x rfl)

theorem reportAmount_some (c : Counter) :
    0 ≤ reportAmount (some c) ∧ reportAmount (some c) = min (c.toNat : Int) (2 ^ 63 - 1) := by
  constructor
  · simp only [reportAmount, largestAmount]
    omega
  · rfl

namespace Monitor.InRange

variable {m : Monitor σ Rat} (h : m.InRange fault)

include h

theorem amount? {metric : Metric} {r : Reading σ (Option Counter)}
    (hr : m.amount? metric = some r) : Returns fault r := by
  cases metric <;> simp only [Monitor.amount?, Option.some.injEq, reduceCtorEq] at hr <;> subst hr
  case totalSwap => exact h.returns.totalSwap
  case freeSwap => exact h.returns.freeSwap
  case totalMemory => exact h.returns.totalMemory
  case freeMemory => exact h.returns.freeMemory
  case processTime => exact h.host.processTime
  all_goals exact h.host.amounts _ (by simp)

/-- A metric with an amount underneath reports it. -/
theorem read_amount {metric : Metric} {r : Reading σ (Option Counter)}
    (hr : m.amount? metric = some r) (s : Session σ) :
    Reading.Triple fault (fun s₀ => s₀ = s) (m.read metric) fun value s' =>
      Reported m s s' metric value := by
  have hread : m.read metric = .amount <$> Monitor.amount r := by
    cases metric <;> simp only [Monitor.amount?, Option.some.injEq, reduceCtorEq] at hr <;>
      subst hr <;> rfl
  rw [hread]
  refine .map (.map ?_)
  rintro s rfl
  have hreturns := h.amount? hr s.source trivial
  cases hrun : r s.source with
  | error overflow source =>
      rw [hrun] at hreturns
      rw [Reading.inSession_error hrun]
      exact hreturns
  | ok v source =>
      rw [Reading.inSession_ok hrun]
      refine .amount hr hrun reportAmount_eq_neg_one_iff ?_
      rintro c rfl
      exact reportAmount_some c

/-- Whatever session a call meets, what it reports is in range. -/
theorem read (metric : Metric) (s : Session σ) :
    Reading.Triple fault (fun s₀ => s₀ = s) (m.read metric) fun value s' =>
      Reported m s s' metric value := by
  cases metric with
  | containerPresent => exact .pure fun _ _ => .containerPresent
  | availableProcessors =>
      refine .map ?_
      rintro s rfl
      exact Reading.Triple.mono (.inSession h.returns.availableProcessors)
        (fun n s' hn => .processors hn) s trivial
  | load =>
      refine .map (.map ?_)
      rintro s rfl
      exact Reading.Triple.mono h.load
        (fun load s' hload => .load (reportLoad_cases hload)) s trivial
  | processLoad =>
      refine .map (.map ?_)
      rintro s rfl
      exact Reading.Triple.mono (.inSession h.host.processLoad)
        (fun load s' hload => .processLoad (reportLoad_cases hload)) s trivial
  | _ => exact h.read_amount rfl s

end Monitor.InRange

/-- The metrics in the order of a snapshot. -/
def Metric.all : List Metric :=
  [.containerPresent, .availableProcessors, .totalSwap, .freeSwap, .totalMemory, .freeMemory,
    .load, .processLoad, .processTime, .committedMemory, .openDescriptors, .maxDescriptors]

def Snapshot.values (snapshot : Snapshot Rat) : List (MetricValue Rat) :=
  [.flag snapshot.containerPresent, .processors snapshot.availableProcessors,
    .amount snapshot.totalSwap, .amount snapshot.freeSwap, .amount snapshot.totalMemory,
    .amount snapshot.freeMemory, .load snapshot.load, .load snapshot.processLoad,
    .amount snapshot.processTime, .amount snapshot.committedMemory,
    .amount snapshot.openDescriptors, .amount snapshot.maxDescriptors]

/-- A snapshot is the same as reading its metrics one after the other. -/
theorem Monitor.values_snapshot (m : Monitor σ Rat) :
    Snapshot.values <$> m.snapshot = Metric.all.mapM m.read := by
  simp only [Metric.all, List.mapM_cons, List.mapM_nil, Monitor.read, Monitor.snapshot,
    Snapshot.values, map_eq_pure_bind, bind_assoc, pure_bind]

/-- A metric that is read, with the monitor over the sources as they are then and what happened to
their state since the call before. No reading of them faults unless `fault` holds. -/
structure MetricCall (σ : Type) where
  change : σ → σ := id
  monitor : Monitor σ Rat
  metric : Metric
  fault : Prop

namespace MetricCall

def meets (call : MetricCall σ) (s : Session σ) : Session σ :=
  { s with source := call.change s.source }

/-- From a session the call reports a value in range, unless a reading of its sources faults. -/
def Answers (call : MetricCall σ) (s : Session σ) : Prop :=
  Reading.Triple call.fault (fun s₀ => s₀ = s) (call.monitor.read call.metric) fun value s' =>
    Reported call.monitor s s' call.metric value

/-- Each call of a run answers in the session that it meets. -/
def AllAnswer : List (MetricCall σ) → Session σ → Prop
  | [], _ => True
  | call :: rest, s =>
    call.Answers (call.meets s) ∧
      AllAnswer rest ((call.monitor.read call.metric).final (call.meets s))

theorem allAnswer {run : List (MetricCall σ)}
    (h : ∀ call ∈ run, call.monitor.InRange call.fault) (s : Session σ) : AllAnswer run s := by
  induction run generalizing s with
  | nil => exact trivial
  | cons call rest ih =>
      refine ⟨?_, ?_⟩
      · exact (h call List.mem_cons_self).read call.metric (call.meets s)
      · exact ih (fun call' hcall' => h call' (List.mem_cons_of_mem call hcall')) _

end MetricCall

namespace HostFiles

variable {host : HostFiles} {tree : FileTree}

/-- Whatever the windows hold, a load that is there lies in the unit interval. -/
theorem load_inRange (host : HostFiles) (tree : FileTree) (key : LoadKey) :
    (host.load tree key : Reading LoadWindows (Option Rat)).Gives (host.Overflows tree key)
      UnitLoad := by
  intro windows _
  by_cases hover : host.Overflows tree key
  · obtain ⟨overflow, hload⟩ :
        ∃ overflow, (host.load tree key : Reading LoadWindows (Option Rat)) windows =
          .error overflow windows := load_of_overflows hover windows
    rw [hload]
    exact hover
  · rcases shows_or_lacks hover with ⟨sample, hshows⟩ | hlacks
    · rw [load_of_shows hshows]
      exact unitLoad_some (inUnit_loadBetween (loadBetween_loadSince _ _))
    · rw [load_of_lacks hover hlacks]
      exact unitLoad_none

/-- A sum of ticks that some load needs exceeds a counter. -/
def SumOverflows (host : HostFiles) (tree : FileTree) : Prop := ∃ key, host.Overflows tree key

theorem totalTime_returns (host : HostFiles) (tree : FileTree) :
    Returns (host.SumOverflows tree) (host.source tree : HostSource LoadWindows Rat).totalTime := by
  refine .ofExcept (fun _ _ => trivial) ?_
  intro overflow herror
  rcases host.hostTicks_cases tree with ⟨ticks, hrun, -⟩ | ⟨hrun, -⟩ | ⟨_, -, hover⟩
  · rw [hrun] at herror
    cases herror
  · rw [hrun] at herror
    cases herror
  · exact ⟨.host, .host hover⟩

theorem processTime_returns (host : HostFiles) (tree : FileTree) :
    Returns (host.SumOverflows tree)
      (host.source tree : HostSource LoadWindows Rat).processTime := by
  refine .ofExcept (fun _ _ => trivial) ?_
  intro overflow herror
  rcases host.processStat_cases tree with ⟨stat, hrun, hstat⟩ | ⟨hrun, -⟩
  · rw [hrun] at herror
    cases hticks : stat.ticks with
    | ok ticks =>
        simp only [hticks] at herror
        cases herror
    | error fault =>
        have hsize := Counter.addOrFault_error_iff.1 ⟨fault, hticks⟩
        exact ⟨.process, .processSum hstat hsize⟩
  · rw [hrun] at herror
    cases herror

theorem source_inRange (host : HostFiles) (tree : FileTree) :
    (host.source tree : HostSource LoadWindows Rat).InRange (host.SumOverflows tree) where
  amounts := by
    simp only [List.mem_cons, List.not_mem_nil, or_false]
    rintro r (rfl | rfl | rfl | rfl | rfl | rfl | rfl)
    all_goals exact .pure trivial
  totalTime := host.totalTime_returns tree
  processTime := host.processTime_returns tree
  onlineCpus := .pure trivial
  configuredCpus := .pure trivial
  load := (host.load_inRange tree .host).weaken fun hover => ⟨_, hover⟩
  cpuLoad cpu := (host.load_inRange tree (.cpu cpu)).weaken fun hover => ⟨_, hover⟩
  processLoad := (host.load_inRange tree .process).weaken fun hover => ⟨_, hover⟩

end HostFiles

theorem ControlGroup.source_return (dir : Path) (tree : FileTree) :
    (source dir tree : ContainerSource σ).Return
      (∃ overflow, shares dir tree = .error overflow) where
  amounts := by
    simp only [List.mem_cons, List.not_mem_nil, or_false]
    rintro r (rfl | rfl | rfl | rfl | rfl | rfl | rfl | rfl)
    all_goals exact .pure trivial
  shares := .ofExcept (fun _ _ => trivial) fun overflow herror => ⟨overflow, herror⟩
  configuredCpus := .pure trivial
  effectiveCpus := .pure trivial

/-- The arithmetic that nothing guards: sums of ticks, and the shares of a container's weight. -/
inductive LinuxFault (host : HostFiles) (group : Option Path) (tree : FileTree) : Prop
  | ticks : host.SumOverflows tree → LinuxFault host group tree
  | weight {dir : Path} {overflow : Overflow} : group = some dir →
      ControlGroup.shares dir tree = .error overflow → LinuxFault host group tree

theorem linuxMonitor_inRange (host : HostFiles) (group : Option Path) (tree : FileTree) :
    (linuxMonitor host group tree : Monitor LoadWindows Rat).InRange
      (LinuxFault host group tree) where
  host := (host.source_inRange tree).weaken .ticks
  container := by
    intro container hcontainer
    obtain ⟨dir, hdir, rfl⟩ := Option.map_eq_some_iff.1 hcontainer
    exact (ControlGroup.source_return dir tree).weaken fun ⟨_, herror⟩ => .weight hdir herror

/-- In any run every metric is reported in range, also as part of a snapshot. The files of a host
only ever show loads in the unit interval, and show them unless a sum of ticks overflows. -/
theorem reported_in_range {run : List (MetricCall σ)}
    (h : ∀ call ∈ run, call.monitor.InRange call.fault) (s : Session σ) :
    MetricCall.AllAnswer run s ∧
      (∀ m : Monitor σ Rat, Snapshot.values <$> m.snapshot = Metric.all.mapM m.read) ∧
      (∀ (host : HostFiles) (tree : FileTree) (key : LoadKey) (windows : LoadWindows),
        (host.Overflows tree key → ∃ overflow,
          (host.load tree key : Reading LoadWindows (Option Rat)) windows =
            .error overflow windows) ∧
        (¬host.Overflows tree key → ∃ load windows',
          host.load tree key windows = .ok load windows' ∧
            ∀ x : Rat, load = some x → 0 ≤ x ∧ x ≤ 1)) ∧
      ∀ (host : HostFiles) (group : Option Path) (tree : FileTree),
        (linuxMonitor host group tree : Monitor LoadWindows Rat).InRange
          (LinuxFault host group tree) := by
  refine ⟨MetricCall.allAnswer h s, Monitor.values_snapshot, ?_, linuxMonitor_inRange⟩
  intro host tree key windows
  refine ⟨fun hover => HostFiles.load_of_overflows hover windows, ?_⟩
  intro hover
  have hgives := (host.load_inRange tree key).weaken hover
  obtain ⟨load, windows', hload, hunit⟩ := hgives.exists_ok (s := windows) trivial
  exact ⟨load, windows', hload, hunit⟩

/-- The `stat` file of a host, and no other. -/
def statTree (line : String) : FileTree where
  entries :=
    [([Path.ofString "proc"], .directory),
      ([Path.ofString "proc", Path.ofString "stat"], .file (Path.ofString line))]

/-- A reading of the load of the host alone. -/
def hostLoadCall (line : String) : MetricCall LoadWindows where
  monitor := linuxMonitor .relative none (statTree line)
  metric := .load
  fault := LinuxFault .relative none (statTree line)

/-- The busy ticks go back at the second call and grow by more than the total at the third. -/
theorem reported_in_range_of_reset :
    MetricCall.AllAnswer
      [hostLoadCall "cpu  300 0 0 100", hostLoadCall "cpu  100 0 0 900",
        hostLoadCall "cpu  900 0 0 200"] { source := {} } := by
  refine (reported_in_range ?_ _).1
  simp only [List.mem_cons, List.not_mem_nil, or_false]
  rintro call (rfl | rfl | rfl)
  all_goals exact linuxMonitor_inRange _ _ _

/-- Every column of the line fits a counter, but their sum does not. -/
theorem hostLoad_overflows :
    (HostFiles.relative.load (statTree "cpu  0 0 0 18446744073709551615 1") .host :
        Reading LoadWindows (Option Rat)) {} = .error .addition {} :=
  rfl

end ResourceMetrics
