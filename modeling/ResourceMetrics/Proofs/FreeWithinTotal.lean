import ResourceMetrics.Scripted
import ResourceMetrics.Proofs.SwapRetry

/-! How the free memory and swap of a monitor compare to its totals. The total comes from the
container as soon as its limits are known, but the free amount only if its usage is known as well.
So where the host's own amounts are in order the monitor's are too, except that the free amount of
the host may be put beside the limit of a container whose usage is not known or makes no sense. -/

namespace ResourceMetrics

variable {σ α β : Type}

/-- A reading that goes on only where the first answer is missing. -/
theorem Reading.Answers.orElse {calm : σ → Prop} {x : Reading σ (Option β)}
    {f : Option β → Reading σ (Option β)} {b b' : Option β} (hx : x.Answers calm b)
    (hsome : ∀ known, f (some known) = return some known) (hnone : (f none).Answers calm b') :
    (x >>= f).Answers calm (b.or b') := by
  refine hx.bind ?_
  cases b with
  | none => exact hnone
  | some b =>
      rw [hsome]
      exact .pure _

/-- Attempts that all answer alike answer at the first one or not at all. -/
theorem Reading.Answers.retry {calm : σ → Prop} {attempt : Reading σ (Option β)} {b : Option β}
    (h : attempt.Answers calm b) (n : Nat) : (attempt.retry (n + 1)).Answers calm b := by
  induction n with
  | zero =>
      have hfirst : (attempt.retry 1).Answers calm (b.or none) :=
        h.orElse (fun _ => rfl) (.pure none)
      rwa [Option.or_none] at hfirst
  | succ n ih =>
      have hfirst : (attempt.retry (n + 2)).Answers calm (b.or b) := h.orElse (fun _ => rfl) ih
      rwa [Option.or_self] at hfirst

/-- The answers of a container about its memory during some calls. -/
structure ContainerMemory where
  memoryLimit : Option Counter := none
  combinedLimit : Option Counter := none
  memoryUsage : Option Counter := none
  combinedUsage : Option Counter := none

/-- The answers of a host about its memory, and of a container if there is one. -/
structure MemoryReport where
  totalSwap : Option Counter := none
  freeSwap : Option Counter := none
  totalMemory : Option Counter := none
  freeMemory : Option Counter := none
  container : Option ContainerMemory := none

structure ContainerSource.ReportsMemory (container : ContainerSource σ) (calm : σ → Prop)
    (report : ContainerMemory) : Prop where
  memoryLimit : container.memoryLimit.Answers calm report.memoryLimit
  combinedLimit : container.combinedLimit.Answers calm report.combinedLimit
  memoryUsage : container.memoryUsage.Answers calm report.memoryUsage
  combinedUsage : container.combinedUsage.Answers calm report.combinedUsage

/-- In the calm states the sources of a monitor answer as reported about memory. -/
structure Monitor.ReportsMemory (m : Monitor σ α) (calm : σ → Prop) (report : MemoryReport) :
    Prop where
  totalSwap : m.host.totalSwap.Answers calm report.totalSwap
  freeSwap : m.host.freeSwap.Answers calm report.freeSwap
  totalMemory : m.host.totalMemory.Answers calm report.totalMemory
  freeMemory : m.host.freeMemory.Answers calm report.freeMemory
  container : Option.Rel (fun c r => c.ReportsMemory calm r) m.container report.container

namespace ContainerMemory

/-- The usages, which are the same whenever they are read. -/
def usages (c : ContainerMemory) : UsageAnswers where
  combined _ := c.combinedUsage
  memory _ := c.memoryUsage

/-- The swap that the limits leave. -/
def swapLimit (c : ContainerMemory) : Option Counter := do
  let combined ← c.combinedLimit
  let memory ← c.memoryLimit
  pure (combined.monus memory)

def freeMemory (c : ContainerMemory) : Option Counter := do
  let usage ← positive? c.memoryUsage
  let limit ← c.memoryLimit
  pure (limit.monus usage)

/-- The free swap by the limits and the usages of the container. -/
def freeSwap (c : ContainerMemory) : Option Counter := do
  let limit ← c.swapLimit
  if limit = 0 then pure 0 else c.usages.attempt limit 0

end ContainerMemory

theorem Counter.positive?_sub? (a b : Counter) :
    positive? (a.sub? b) = positive? (some (a.monus b)) := by
  ext c
  rw [positive?_eq_some_iff, positive?_eq_some_iff, Counter.sub?_eq_some_iff, Option.some.injEq,
    ← UInt64.toNat_inj, Counter.toNat_monus, UInt64.lt_iff_toNat_lt, UInt64.toNat_zero]
  omega

namespace ContainerSource.ReportsMemory

variable {container : ContainerSource σ} {calm : σ → Prop} {c : ContainerMemory}
  (h : container.ReportsMemory calm c)

include h

theorem swapLimit : container.swapLimit.Answers calm c.swapLimit := by
  refine h.combinedLimit.bind ?_
  unfold ContainerMemory.swapLimit
  cases c.combinedLimit with
  | none => exact .pure _
  | some combined =>
      refine h.memoryLimit.bind ?_
      cases c.memoryLimit with
      | none => exact .pure _
      | some memory => exact .pure _

theorem freeMemory : container.freeMemory.Answers calm c.freeMemory := by
  refine h.memoryUsage.bind ?_
  unfold ContainerMemory.freeMemory
  cases positive? c.memoryUsage with
  | none => exact .pure _
  | some usage =>
      refine h.memoryLimit.bind ?_
      cases c.memoryLimit with
      | none => exact .pure _
      | some limit => exact .pure _

theorem sampleFreeSwap (limit : Counter) :
    (container.sampleFreeSwap limit).Answers calm (c.usages.attempt limit 0) := by
  refine h.combinedUsage.bind ?_
  unfold UsageAnswers.attempt ContainerMemory.usages
  cases positive? c.combinedUsage with
  | none => exact .pure _
  | some combined =>
      refine h.memoryUsage.bind ?_
      cases positive? c.memoryUsage with
      | none => exact .pure _
      | some memory => exact .pure _

end ContainerSource.ReportsMemory

namespace MemoryReport

/-- The part of an answer that comes from the container. -/
def own (report : MemoryReport) (get : ContainerMemory → Option Counter) : Option Counter :=
  report.container.bind get

end MemoryReport

namespace Monitor.ReportsMemory

variable {m : Monitor σ α} {calm : σ → Prop} {report : MemoryReport}
  (h : m.ReportsMemory calm report)

include h

/-- A reading that a container may answer in place of the host. -/
theorem answers_own {read host : Reading σ (Option Counter)}
    {inside : ContainerSource σ → Reading σ (Option Counter)}
    {get : ContainerMemory → Option Counter} {b : Option Counter}
    (hread : read = match m.container with
      | none => host
      | some container => inside container)
    (hhost : host.Answers calm b)
    (hinside : ∀ {container c}, container.ReportsMemory calm c →
      (inside container).Answers calm ((get c).or b)) :
    read.Answers calm ((report.own get).or b) := by
  unfold MemoryReport.own
  rcases option_rel_cases h.container with ⟨hm, hr⟩ | ⟨container, c, hm, hr, hc⟩
  · rw [hread, hm, hr]
    exact hhost
  · rw [hread, hm, hr]
    exact hinside hc

theorem totalSwap_answers :
    m.totalSwap.Answers calm ((report.own (·.swapLimit)).or report.totalSwap) :=
  h.answers_own rfl h.totalSwap fun hc => hc.swapLimit.orElse (fun _ => rfl) h.totalSwap

theorem totalMemory_answers :
    m.totalMemory.Answers calm ((report.own (·.memoryLimit)).or report.totalMemory) :=
  h.answers_own rfl h.totalMemory fun hc => hc.memoryLimit.orElse (fun _ => rfl) h.totalMemory

theorem freeMemory_answers :
    m.freeMemory.Answers calm ((report.own (·.freeMemory)).or report.freeMemory) :=
  h.answers_own rfl h.freeMemory fun hc => hc.freeMemory.orElse (fun _ => rfl) h.freeMemory

theorem freeSwap_answers :
    m.freeSwap.Answers calm ((report.own (·.freeSwap)).or report.freeSwap) := by
  refine h.answers_own rfl h.freeSwap fun {container c} hc => ?_
  refine hc.combinedLimit.bind (hc.memoryLimit.bind ?_)
  unfold ContainerMemory.freeSwap ContainerMemory.swapLimit
  cases c.combinedLimit with
  | none => exact h.freeSwap
  | some combined =>
      cases c.memoryLimit with
      | none => exact h.freeSwap
      | some memory =>
          simp only [Counter.positive?_sub?, bind, pure, Option.bind_some]
          by_cases hzero : combined.monus memory = 0
          · simp only [hzero]
            exact .pure _
          · have hpos : positive? (some (combined.monus memory)) =
                some (combined.monus memory) :=
              positive?_eq_some_iff.2 ⟨rfl, UInt64.pos_iff_ne_zero.2 hzero⟩
            simp only [hpos, if_neg hzero]
            exact ((hc.sampleFreeSwap _).retry 9).orElse (fun _ => rfl) h.freeSwap

end Monitor.ReportsMemory

/-- Both amounts are known, and more is free than there is. -/
def Exceeds (free total : Option Counter) : Prop :=
  ∃ f t, free = some f ∧ total = some t ∧ t < f

theorem not_exceeds_none (free : Option Counter) : ¬Exceeds free none := by
  rintro ⟨_, _, -, ⟨⟩, -⟩

/-- Where the container's free amount is within its limit and the host's is within its total, the
one way out of order is that the host's free amount stands beside the container's limit. -/
theorem exceeds_or_iff {own limit free total : Option Counter}
    (hown : ∀ f, own = some f → ∃ l, limit = some l ∧ f ≤ l) (hhost : ¬Exceeds free total) :
    Exceeds (own.or free) (limit.or total) ↔ own = none ∧ Exceeds free limit := by
  cases own with
  | some f =>
      obtain ⟨l, rfl, hle⟩ := hown f rfl
      refine iff_of_false ?_ fun h => nomatch h.1
      rintro ⟨_, _, ⟨rfl⟩, ⟨rfl⟩, hlt⟩
      exact UInt64.not_lt.2 hle hlt
  | none =>
      cases limit with
      | some l => exact (and_iff_right rfl).symm
      | none => exact iff_of_false hhost fun h => not_exceeds_none free h.2

namespace ContainerMemory

variable {c : ContainerMemory}

theorem freeMemory_le {f : Counter} (h : c.freeMemory = some f) :
    ∃ l, c.memoryLimit = some l ∧ f ≤ l := by
  unfold freeMemory at h
  simp only [bind, pure, Option.bind_eq_some_iff, Option.some.injEq] at h
  obtain ⟨usage, -, limit, hlimit, rfl⟩ := h
  refine ⟨limit, hlimit, ?_⟩
  rw [UInt64.le_iff_toNat_le, Counter.toNat_monus]
  exact Nat.sub_le _ _

theorem freeMemory_eq_none_iff {l : Counter} (h : c.memoryLimit = some l) :
    c.freeMemory = none ↔ c.memoryUsage = none ∨ c.memoryUsage = some 0 := by
  rw [← positive?_eq_none_iff]
  unfold freeMemory
  rw [h]
  cases positive? c.memoryUsage with
  | none => exact iff_of_true rfl rfl
  | some usage => exact iff_of_false nofun nofun

theorem swapLimit_eq_some_iff {limit : Counter} : c.swapLimit = some limit ↔
    ∃ combined memory, c.combinedLimit = some combined ∧ c.memoryLimit = some memory ∧
      limit.toNat = combined.toNat - memory.toNat := by
  unfold swapLimit
  simp only [bind, pure, Option.bind_eq_some_iff, Option.some.injEq, ← UInt64.toNat_inj,
    Counter.toNat_monus]
  constructor
  · rintro ⟨combined, hcombined, memory, hmemory, hlimit⟩
    exact ⟨combined, memory, hcombined, hmemory, hlimit.symm⟩
  · rintro ⟨combined, memory, hcombined, hmemory, hlimit⟩
    exact ⟨combined, hcombined, memory, hmemory, hlimit.symm⟩

theorem freeSwap_le {f : Counter} (h : c.freeSwap = some f) :
    ∃ l, c.swapLimit = some l ∧ f ≤ l := by
  unfold freeSwap at h
  rw [Option.bind_eq_bind, Option.bind_eq_some_iff] at h
  obtain ⟨limit, hlimit, hfree⟩ := h
  refine ⟨limit, hlimit, ?_⟩
  by_cases hzero : limit = 0
  · rw [if_pos hzero] at hfree
    obtain rfl := Option.some.inj hfree
    exact UInt64.zero_le
  · rw [if_neg hzero] at hfree
    exact UInt64.le_iff_toNat_le.2 (UsageAnswers.attempt_eq_some_iff.1 hfree).le

/-- A limit that leaves no swap is answered without the usages; under any other one they have to
fit. -/
theorem freeSwap_eq_none_iff {limit : Counter} (h : c.swapLimit = some limit) :
    c.freeSwap = none ↔ 0 < limit ∧ ∀ n free, ¬c.usages.Fits limit.toNat n free := by
  unfold freeSwap
  rw [h, Option.bind_eq_bind, Option.bind_some]
  by_cases hzero : limit = 0
  · rw [if_pos hzero, hzero]
    exact iff_of_false nofun fun hpos => UInt64.lt_irrefl 0 hpos.1
  · rw [if_neg hzero, UsageAnswers.attempt_eq_none_iff]
    -- No reading depends on those before it, so one attempt stands for all.
    exact ⟨fun hnone => ⟨UInt64.pos_iff_ne_zero.2 hzero, fun _ => hnone⟩, fun hnone => hnone.2 0⟩

end ContainerMemory

/-- Where the free amounts of the monitor are above its totals. -/
structure FreeLaw (m : Monitor σ α) (calm : σ → Prop) (report : MemoryReport) : Prop where
  memory : ∃ free total, m.freeMemory.Answers calm free ∧ m.totalMemory.Answers calm total ∧
    (Exceeds free total ↔ ∃ c limit f, report.container = some c ∧ c.memoryLimit = some limit ∧
      (c.memoryUsage = none ∨ c.memoryUsage = some 0) ∧ report.freeMemory = some f ∧ limit < f)
  swap : ∃ free total, m.freeSwap.Answers calm free ∧ m.totalSwap.Answers calm total ∧
    (Exceeds free total ↔ ∃ c combined memory f, report.container = some c ∧
      c.combinedLimit = some combined ∧ c.memoryLimit = some memory ∧ memory < combined ∧
      (∀ n free, ¬c.usages.Fits (combined.toNat - memory.toNat) n free) ∧
      report.freeSwap = some f ∧ combined.toNat - memory.toNat < f.toNat)

section Law

variable {report : MemoryReport}

theorem exceeds_memory_iff (hhost : ¬Exceeds report.freeMemory report.totalMemory) :
    Exceeds ((report.own (·.freeMemory)).or report.freeMemory)
        ((report.own (·.memoryLimit)).or report.totalMemory) ↔
      ∃ c limit f, report.container = some c ∧ c.memoryLimit = some limit ∧
        (c.memoryUsage = none ∨ c.memoryUsage = some 0) ∧ report.freeMemory = some f ∧
          limit < f := by
  unfold MemoryReport.own
  cases hr : report.container with
  | none =>
      refine iff_of_false hhost ?_
      rintro ⟨c, _, _, ⟨⟩, -⟩
  | some c =>
      rw [Option.bind_some, Option.bind_some,
        exceeds_or_iff (fun _ => ContainerMemory.freeMemory_le) hhost]
      constructor
      · rintro ⟨hnone, f, limit, hf, hlimit, hlt⟩
        exact ⟨c, limit, f, rfl, hlimit,
          (ContainerMemory.freeMemory_eq_none_iff hlimit).1 hnone, hf, hlt⟩
      · rintro ⟨_, limit, f, ⟨rfl⟩, hlimit, hunknown, hf, hlt⟩
        have hnone := (ContainerMemory.freeMemory_eq_none_iff hlimit).2 hunknown
        exact ⟨hnone, f, limit, hf, hlimit, hlt⟩

theorem exceeds_swap_iff (hhost : ¬Exceeds report.freeSwap report.totalSwap) :
    Exceeds ((report.own (·.freeSwap)).or report.freeSwap)
        ((report.own (·.swapLimit)).or report.totalSwap) ↔
      ∃ c combined memory f, report.container = some c ∧
        c.combinedLimit = some combined ∧ c.memoryLimit = some memory ∧ memory < combined ∧
        (∀ n free, ¬c.usages.Fits (combined.toNat - memory.toNat) n free) ∧
        report.freeSwap = some f ∧ combined.toNat - memory.toNat < f.toNat := by
  unfold MemoryReport.own
  cases hr : report.container with
  | none =>
      refine iff_of_false hhost ?_
      rintro ⟨c, _, _, _, ⟨⟩, -⟩
  | some c =>
      rw [Option.bind_some, Option.bind_some,
        exceeds_or_iff (fun _ => ContainerMemory.freeSwap_le) hhost]
      constructor
      · rintro ⟨hnone, f, limit, hf, hlimit, hlt⟩
        obtain ⟨combined, memory, hcombined, hmemory, hvalue⟩ :=
          ContainerMemory.swapLimit_eq_some_iff.1 hlimit
        obtain ⟨hpos, hunfit⟩ := (ContainerMemory.freeSwap_eq_none_iff hlimit).1 hnone
        rw [UInt64.lt_iff_toNat_lt, hvalue] at hlt
        rw [UInt64.lt_iff_toNat_lt, hvalue, UInt64.toNat_zero, Nat.sub_pos_iff_lt] at hpos
        rw [hvalue] at hunfit
        exact ⟨c, combined, memory, f, rfl, hcombined, hmemory, UInt64.lt_iff_toNat_lt.2 hpos,
          hunfit, hf, hlt⟩
      · rintro ⟨_, combined, memory, f, ⟨rfl⟩, hcombined, hmemory, hlt, hunfit, hf, hexceeds⟩
        obtain ⟨-, hvalue⟩ := swap_eq_some hlt
        have hlimit : c.swapLimit = some (combined - memory) :=
          ContainerMemory.swapLimit_eq_some_iff.2 ⟨combined, memory, hcombined, hmemory, hvalue⟩
        rw [← hvalue] at hunfit hexceeds
        refine ⟨(ContainerMemory.freeSwap_eq_none_iff hlimit).2 ⟨?_, hunfit⟩, f, _, hf, hlimit,
          UInt64.lt_iff_toNat_lt.2 hexceeds⟩
        rw [UInt64.lt_iff_toNat_lt, hvalue, UInt64.toNat_zero]
        exact Nat.sub_pos_of_lt (UInt64.lt_iff_toNat_lt.1 hlt)

/-- No more is free than there is, but for the host's free amounts beside smaller limits of a
container whose usage is not known, or whose usages of swap do not fit. -/
theorem free_of_reports {m : Monitor σ α} {calm : σ → Prop} (h : m.ReportsMemory calm report)
    (hmemory : ¬Exceeds report.freeMemory report.totalMemory)
    (hswap : ¬Exceeds report.freeSwap report.totalSwap) : FreeLaw m calm report where
  memory := ⟨_, _, h.freeMemory_answers, h.totalMemory_answers, exceeds_memory_iff hmemory⟩
  swap := ⟨_, _, h.freeSwap_answers, h.totalSwap_answers, exceeds_swap_iff hswap⟩

end Law

/-- The scenario in which every reading goes on answering as reported. -/
def MemoryReport.scenario (report : MemoryReport) : Scenario α where
  host :=
    { totalSwap := { standing := report.totalSwap }
      freeSwap := { standing := report.freeSwap }
      totalMemory := { standing := report.totalMemory }
      freeMemory := { standing := report.freeMemory } }
  container :=
    { memoryLimit := { standing := report.own (·.memoryLimit) }
      combinedLimit := { standing := report.own (·.combinedLimit) }
      memoryUsage := { standing := report.own (·.memoryUsage) }
      combinedUsage := { standing := report.own (·.combinedUsage) } }

/-- The scripts are as in the scenario, however often the combined usage has been read. -/
def MemoryReport.Standing (report : MemoryReport) (s : Scenario α) : Prop :=
  s.host = report.scenario.host ∧ s.container = (report.scenario : Scenario α).container

/-- Any report is one that sources can give. -/
theorem MemoryReport.scenario_reports (report : MemoryReport) :
    (Scenario.monitor report.container.isSome : Monitor (Scenario α) α).ReportsMemory
      report.Standing report where
  totalSwap := by
    rintro ⟨host, container, reads⟩ ⟨rfl, rfl⟩
    exact ⟨rfl, rfl, rfl⟩
  freeSwap := by
    rintro ⟨host, container, reads⟩ ⟨rfl, rfl⟩
    exact ⟨rfl, rfl, rfl⟩
  totalMemory := by
    rintro ⟨host, container, reads⟩ ⟨rfl, rfl⟩
    exact ⟨rfl, rfl, rfl⟩
  freeMemory := by
    rintro ⟨host, container, reads⟩ ⟨rfl, rfl⟩
    exact ⟨rfl, rfl, rfl⟩
  container := by
    unfold Scenario.monitor
    cases hc : report.container with
    | none => exact .none
    | some c =>
        refine .some ⟨?_, ?_, ?_, ?_⟩
        all_goals
          rintro ⟨host, container, reads⟩ ⟨rfl, rfl⟩
          exact ⟨by simp only [scenario, own, hc]; rfl, rfl, rfl⟩

/-- The memory usage of the container is not known, and its swap may not exceed 500. -/
def unknownUsageReport : MemoryReport where
  totalSwap := some 2000
  freeSwap := some 600
  totalMemory := some 8000
  freeMemory := some 5000
  container := some
    { memoryLimit := some 1000, combinedLimit := some 1500, combinedUsage := some 1200 }

/-- Both free amounts are those of the host, and both totals those of the container. -/
theorem free_of_reports_unknownUsage :
    (∃ free total s₁ s₂,
      (Scenario.monitor true : Monitor (Scenario Rat) Rat).freeMemory
        unknownUsageReport.scenario = .ok (some free) s₁ ∧
      (Scenario.monitor true : Monitor (Scenario Rat) Rat).totalMemory
        unknownUsageReport.scenario = .ok (some total) s₂ ∧ total < free) ∧
    ∃ free total s₁ s₂,
      (Scenario.monitor true : Monitor (Scenario Rat) Rat).freeSwap
        unknownUsageReport.scenario = .ok (some free) s₁ ∧
      (Scenario.monitor true : Monitor (Scenario Rat) Rat).totalSwap
        unknownUsageReport.scenario = .ok (some total) s₂ ∧ total < free := by
  have hmemory : ¬Exceeds unknownUsageReport.freeMemory unknownUsageReport.totalMemory := by
    rintro ⟨_, _, ⟨rfl⟩, ⟨rfl⟩, hlt⟩
    exact absurd hlt (by decide)
  have hswap : ¬Exceeds unknownUsageReport.freeSwap unknownUsageReport.totalSwap := by
    rintro ⟨_, _, ⟨rfl⟩, ⟨rfl⟩, hlt⟩
    exact absurd hlt (by decide)
  have hlaw := free_of_reports (unknownUsageReport.scenario_reports (α := Rat)) hmemory hswap
  have hstanding : unknownUsageReport.Standing (unknownUsageReport.scenario : Scenario Rat) :=
    ⟨rfl, rfl⟩
  constructor
  · obtain ⟨_, _, hfree, htotal, hiff⟩ := hlaw.memory
    obtain ⟨free, total, rfl, rfl, hlt⟩ :=
      hiff.2 ⟨_, 1000, 5000, rfl, rfl, Or.inl rfl, rfl, by decide⟩
    obtain ⟨_, s₁, hrun₁, rfl, -⟩ := hfree.exists_ok hstanding
    obtain ⟨_, s₂, hrun₂, rfl, -⟩ := htotal.exists_ok hstanding
    exact ⟨free, total, s₁, s₂, hrun₁, hrun₂, hlt⟩
  · have hunfit : ∀ n free, ¬UsageAnswers.Fits ⟨fun _ => some 1200, fun _ => none⟩ 500 n free := by
      rintro n free ⟨_, _, -, -, ⟨⟩, -⟩
    obtain ⟨_, _, hfree, htotal, hiff⟩ := hlaw.swap
    obtain ⟨free, total, rfl, rfl, hlt⟩ :=
      hiff.2 ⟨_, 1500, 1000, 600, rfl, rfl, rfl, by decide, hunfit, rfl, by decide⟩
    obtain ⟨_, s₁, hrun₁, rfl, -⟩ := hfree.exists_ok hstanding
    obtain ⟨_, s₂, hrun₂, rfl, -⟩ := htotal.exists_ok hstanding
    exact ⟨free, total, s₁, s₂, hrun₁, hrun₂, hlt⟩

end ResourceMetrics
