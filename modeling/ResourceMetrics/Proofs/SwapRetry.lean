import ResourceMetrics.Snapshot
import ResourceMetrics.Proofs.Reading

/-! The free swap of a container whose usages change under the attempts. What a reading of a usage
answers may depend on how many readings of either usage came before it, so every stream of
answers is covered, and so is the order in which an attempt reads the two. -/

namespace ResourceMetrics

variable {σ α β : Type}

/-- If the attempts answer a sequence, retrying answers its first element that is there, right
after the attempt that gave it. -/
theorem Reading.retry_of_answers {attempt : Reading σ (Option β)} {answers : Nat → Option β}
    {before : Nat → σ → Prop}
    (hattempt : ∀ n s, before n s → ∃ s', attempt s = .ok (answers n) s' ∧ before (n + 1) s') :
    ∀ (limit start : Nat) (s : σ), before start s →
      (∀ n b, n < limit → (∀ i < n, answers (start + i) = none) → answers (start + n) = some b →
        ∃ s', attempt.retry limit s = .ok (some b) s' ∧ before (start + n + 1) s') ∧
      ((∀ i < limit, answers (start + i) = none) →
        ∃ s', attempt.retry limit s = .ok none s' ∧ before (start + limit) s') := by
  intro limit
  induction limit with
  | zero =>
      intro start s hs
      refine ⟨?_, ?_⟩
      · intro n b hn
        exact absurd hn (Nat.not_lt_zero n)
      · intro _
        exact ⟨s, rfl, hs⟩
  | succ limit ih =>
      intro start s hs
      obtain ⟨s₁, hfirst, hs₁⟩ := hattempt start s hs
      -- A failed attempt shifts the sequence by one.
      have hnext (hnone : answers start = none) :
          attempt.retry (limit + 1) s = attempt.retry limit s₁ := by
        rw [hnone] at hfirst
        rw [Reading.retry, Reading.bind_ok hfirst]
      have hshift (k : Nat) : start + 1 + k = start + (k + 1) := by omega
      obtain ⟨ihfound, ihnone⟩ := ih (start + 1) s₁ hs₁
      refine ⟨?_, ?_⟩
      · intro n b hn hbefore hfound
        cases n with
        | zero =>
            rw [Nat.add_zero] at hfound
            rw [hfound] at hfirst
            refine ⟨s₁, ?_, hs₁⟩
            rw [Reading.retry, Reading.bind_ok hfirst]
            rfl
        | succ n =>
            have hbefore' : ∀ i < n, answers (start + 1 + i) = none := by
              intro i hi
              rw [hshift]
              exact hbefore (i + 1) (by omega)
            have hfound' : answers (start + 1 + n) = some b := by
              rw [hshift]
              exact hfound
            rw [hnext (hbefore 0 (Nat.succ_pos n)), ← hshift]
            exact ihfound n b (by omega) hbefore' hfound'
      · intro hbefore
        have hbefore' : ∀ i < limit, answers (start + 1 + i) = none := by
          intro i hi
          rw [hshift]
          exact hbefore (i + 1) (by omega)
        rw [hnext (hbefore 0 (Nat.succ_pos limit)), ← hshift]
        exact ihnone hbefore'

/-- How often each usage has been read. -/
structure UsageReads where
  combined : Nat := 0
  memory : Nat := 0
  deriving Repr, DecidableEq

/-- What the next reading of a usage answers, by the readings before it. -/
structure UsageAnswers where
  combined : UsageReads → Option Counter
  memory : UsageReads → Option Counter

namespace UsageAnswers

/-- How often the memory usage is read in the first attempts: once for each of them that finds the
combined usage present and positive. -/
def memoryReads (u : UsageAnswers) : Nat → Nat
  | 0 => 0
  | n + 1 =>
    let before := memoryReads u n
    if (positive? (u.combined ⟨n, before⟩)).isSome then before + 1 else before

/-- The readings that the first attempts make. -/
def readsBefore (u : UsageAnswers) (n : Nat) : UsageReads := ⟨n, u.memoryReads n⟩

/-- The attempt after the first `n` ones finds a pair of usages that fits together and leaves some
of the limit free. -/
def Fits (u : UsageAnswers) (limit : Nat) (n : Nat) (free : Counter) : Prop :=
  ∃ a m : Counter, u.combined ⟨n, u.memoryReads n⟩ = some a ∧ 0 < a ∧
    u.memory ⟨n + 1, u.memoryReads n⟩ = some m ∧ 0 < m ∧
      m ≤ a ∧ a.toNat - m.toNat ≤ limit ∧ free.toNat = limit - (a.toNat - m.toNat)

theorem Fits.le {u : UsageAnswers} {limit n : Nat} {free : Counter} (h : u.Fits limit n free) :
    free.toNat ≤ limit := by
  obtain ⟨a, m, _, _, _, _, _, _, hfree⟩ := h
  rw [hfree]
  exact Nat.sub_le _ _

/-- The answer of that attempt. -/
def attempt (u : UsageAnswers) (limit : Counter) (n : Nat) : Option Counter := do
  let combined ← positive? (u.combined ⟨n, u.memoryReads n⟩)
  let memory ← positive? (u.memory ⟨n + 1, u.memoryReads n⟩)
  let swap ← combined.sub? memory
  limit.sub? swap

theorem attempt_eq_some_iff {u : UsageAnswers} {limit : Counter} {n : Nat} {free : Counter} :
    u.attempt limit n = some free ↔ u.Fits limit.toNat n free := by
  unfold attempt Fits
  simp only [bind, Option.bind_eq_some_iff, positive?_eq_some_iff, Counter.sub?_eq_some_iff,
    UInt64.le_iff_toNat_le]
  constructor
  · rintro ⟨a, ⟨ha, hapos⟩, m, ⟨hm, hmpos⟩, swap, hswap, hfree⟩
    exact ⟨a, m, ha, hapos, hm, hmpos, by omega, by omega, by omega⟩
  · rintro ⟨a, m, ha, hapos, hm, hmpos, hle, hlimit, hfree⟩
    refine ⟨a, ⟨ha, hapos⟩, m, ⟨hm, hmpos⟩, a - m, ?_, ?_⟩
    · rw [UInt64.toNat_sub_of_le a m (UInt64.le_iff_toNat_le.2 hle)]
      omega
    · rw [UInt64.toNat_sub_of_le a m (UInt64.le_iff_toNat_le.2 hle)]
      omega

theorem attempt_eq_none_iff {u : UsageAnswers} {limit : Counter} {n : Nat} :
    u.attempt limit n = none ↔ ∀ free, ¬u.Fits limit.toNat n free := by
  rw [Option.eq_none_iff_forall_ne_some]
  exact forall_congr' fun free => not_congr attempt_eq_some_iff

end UsageAnswers

/-- A container with fixed limits, whose usages answer by the readings made so far. -/
structure ContainerSource.Plays (container : ContainerSource σ) (reads : σ → UsageReads)
    (combinedLimit memoryLimit : Counter) (u : UsageAnswers) : Prop where
  combinedLimit : ∀ s, ∃ s', container.combinedLimit s = .ok (some combinedLimit) s' ∧
    reads s' = reads s
  memoryLimit : ∀ s, ∃ s', container.memoryLimit s = .ok (some memoryLimit) s' ∧
    reads s' = reads s
  combinedUsage : ∀ s, ∃ s', container.combinedUsage s = .ok (u.combined (reads s)) s' ∧
    reads s' = ⟨(reads s).combined + 1, (reads s).memory⟩
  memoryUsage : ∀ s, ∃ s', container.memoryUsage s = .ok (u.memory (reads s)) s' ∧
    reads s' = ⟨(reads s).combined, (reads s).memory + 1⟩

namespace ContainerSource.Plays

variable {container : ContainerSource σ} {reads : σ → UsageReads}
  {combinedLimit memoryLimit : Counter} {u : UsageAnswers}

theorem attempt_run (h : container.Plays reads combinedLimit memoryLimit u) (limit : Counter)
    (n : Nat) (s : σ) (hs : reads s = u.readsBefore n) :
    ∃ s', container.sampleFreeSwap limit s = .ok (u.attempt limit n) s' ∧
      reads s' = u.readsBefore (n + 1) := by
  obtain ⟨s₁, hcombined, hs₁⟩ := h.combinedUsage s
  rw [hs, UsageAnswers.readsBefore] at hcombined hs₁
  unfold ContainerSource.sampleFreeSwap UsageAnswers.attempt UsageAnswers.readsBefore
  rw [Reading.bind_ok hcombined, UsageAnswers.memoryReads]
  cases ha : positive? (u.combined ⟨n, u.memoryReads n⟩) with
  | none => exact ⟨s₁, rfl, hs₁⟩
  | some a =>
      obtain ⟨s₂, hmemory, hs₂⟩ := h.memoryUsage s₁
      rw [hs₁] at hmemory hs₂
      dsimp only
      rw [Reading.bind_ok hmemory]
      refine ⟨s₂, ?_, hs₂⟩
      cases positive? (u.memory ⟨n + 1, u.memoryReads n⟩) with
      | none => rfl
      | some m => rfl

end ContainerSource.Plays

/-- What the free swap is while the limits leave the difference of `combinedLimit` and
`memoryLimit`, from a state in which no usage has been read. -/
structure FreeSwapLaw [LoadScale α] (m : Monitor σ α) (reads : σ → UsageReads)
    (combinedLimit memoryLimit : Counter) (u : UsageAnswers) (s : σ) : Prop where
  noSwap : combinedLimit ≤ memoryLimit → ∃ s', m.freeSwap s = .ok (some 0) s' ∧ reads s' = {}
  found : memoryLimit < combinedLimit → ∀ n free, n < 10 →
    (∀ i < n, ∀ free', ¬u.Fits (combinedLimit.toNat - memoryLimit.toNat) i free') →
      u.Fits (combinedLimit.toNat - memoryLimit.toNat) n free →
        free.toNat ≤ combinedLimit.toNat - memoryLimit.toNat ∧
          ∃ s', m.freeSwap s = .ok (some free) s' ∧ reads s' = u.readsBefore (n + 1)
  exhausted : memoryLimit < combinedLimit →
    (∀ i < 10, ∀ free, ¬u.Fits (combinedLimit.toNat - memoryLimit.toNat) i free) →
      ∃ s', reads s' = u.readsBefore 10 ∧ m.freeSwap s = m.host.freeSwap s'
  missing : ∀ history s₂, m.read .freeSwap ⟨history, s⟩ = .ok (.amount (-1)) s₂ →
    memoryLimit < combinedLimit ∧
      (∀ i < 10, ∀ free, ¬u.Fits (combinedLimit.toNat - memoryLimit.toNat) i free) ∧
        ∃ s', reads s' = u.readsBefore 10 ∧ m.host.freeSwap s' = .ok none s₂.source

/-- A session reports a missing amount only where the reading of its source answers none. -/
theorem Monitor.amount_eq_neg_one {r : Reading σ (Option Counter)} {s s' : Session σ}
    (h : Monitor.amount r s = .ok (-1) s') : r s.source = .ok none s'.source := by
  unfold Monitor.amount at h
  cases hr : r s.source with
  | ok n source =>
      rw [Reading.map_ok (Reading.inSession_ok hr)] at h
      injection h with hn hs
      rw [reportAmount_eq_neg_one_iff.1 hn, ← hs]
  | error fault source =>
      rw [Reading.map_error (Reading.inSession_error hr)] at h
      cases h

namespace UsageAnswers

/-- Either some attempt is the first that finds a pair that fits, or none does. -/
theorem first_fit (u : UsageAnswers) (limit attempts : Nat) :
    (∃ n free, n < attempts ∧ (∀ i < n, ∀ free', ¬u.Fits limit i free') ∧ u.Fits limit n free) ∨
      ∀ i < attempts, ∀ free, ¬u.Fits limit i free := by
  induction attempts with
  | zero => exact Or.inr fun i hi => absurd hi (Nat.not_lt_zero i)
  | succ attempts ih =>
      rcases ih with ⟨n, free, hn, hfirst, hfits⟩ | hnone
      · exact Or.inl ⟨n, free, by omega, hfirst, hfits⟩
      · by_cases hlast : ∃ free, u.Fits limit attempts free
        · obtain ⟨free, hfits⟩ := hlast
          exact Or.inl ⟨attempts, free, by omega, hnone, hfits⟩
        · refine Or.inr fun i hi free hfits => ?_
          rcases Nat.lt_succ_iff_lt_or_eq.1 hi with hi | rfl
          · exact hnone i hi free hfits
          · exact hlast ⟨free, hfits⟩

end UsageAnswers

section FreeSwap

variable {m : Monitor σ α} {container : ContainerSource σ} {reads : σ → UsageReads}
  {combinedLimit memoryLimit : Counter} {u : UsageAnswers} {s : σ}

/-- Limits that are equal or in the wrong order leave no swap. -/
theorem swap_eq_none (h : combinedLimit ≤ memoryLimit) :
    positive? (combinedLimit.sub? memoryLimit) = none := by
  rw [Option.eq_none_iff_forall_ne_some]
  intro limit hlimit
  rw [positive?_eq_some_iff, Counter.sub?_eq_some_iff, UInt64.lt_iff_toNat_lt,
    UInt64.toNat_zero] at hlimit
  rw [UInt64.le_iff_toNat_le] at h
  omega

theorem swap_eq_some (h : memoryLimit < combinedLimit) :
    positive? (combinedLimit.sub? memoryLimit) = some (combinedLimit - memoryLimit) ∧
      (combinedLimit - memoryLimit).toNat = combinedLimit.toNat - memoryLimit.toNat := by
  have hsub := UInt64.toNat_sub_of_le _ _ (UInt64.le_of_lt h)
  rw [UInt64.lt_iff_toNat_lt] at h
  refine ⟨?_, hsub⟩
  rw [positive?_eq_some_iff, Counter.sub?_eq_some_iff, UInt64.lt_iff_toNat_lt, hsub,
    UInt64.toNat_zero]
  omega

/-- Both limits are read before any usage is. -/
theorem Monitor.freeSwap_run (hm : m.container = some container)
    (h : container.Plays reads combinedLimit memoryLimit u) (hs : reads s = {}) :
    ∃ s₁, reads s₁ = u.readsBefore 0 ∧
      (combinedLimit ≤ memoryLimit → m.freeSwap s = .ok (some 0) s₁) ∧
      (memoryLimit < combinedLimit →
        m.freeSwap s = (((container.sampleFreeSwap (combinedLimit - memoryLimit)).retry
          maxSwapAttempts) >>= fun free? =>
            match free? with
            | some free => pure (some free)
            | none => m.host.freeSwap) s₁) := by
  obtain ⟨s', hcombined, hs'⟩ := h.combinedLimit s
  obtain ⟨s₁, hmemory, hs₁⟩ := h.memoryLimit s'
  refine ⟨s₁, ?_, ?_, ?_⟩
  · rw [hs₁, hs', hs]
    rfl
  · intro hle
    unfold Monitor.freeSwap
    rw [hm]
    dsimp only
    rw [Reading.bind_ok hcombined, Reading.bind_ok hmemory]
    dsimp only
    rw [swap_eq_none hle]
    rfl
  · intro hlt
    have hswap := (swap_eq_some hlt).1
    unfold Monitor.freeSwap
    rw [hm]
    dsimp only
    rw [Reading.bind_ok hcombined, Reading.bind_ok hmemory]
    dsimp only
    generalize positive? (combinedLimit.sub? memoryLimit) = swap at hswap ⊢
    subst hswap
    rfl

/-- The first attempts answer in turn as `attempt` says. -/
theorem ContainerSource.Plays.retry_run
    (h : container.Plays reads combinedLimit memoryLimit u) (limit : Counter) {s₁ : σ}
    (hs₁ : reads s₁ = u.readsBefore 0) :
    (∀ n free, n < Monitor.maxSwapAttempts → (∀ i < n, ∀ free', ¬u.Fits limit.toNat i free') →
      u.Fits limit.toNat n free →
        ∃ s', (container.sampleFreeSwap limit).retry Monitor.maxSwapAttempts s₁ =
            .ok (some free) s' ∧
          reads s' = u.readsBefore (n + 1)) ∧
      ((∀ i < Monitor.maxSwapAttempts, ∀ free, ¬u.Fits limit.toNat i free) →
        ∃ s', (container.sampleFreeSwap limit).retry Monitor.maxSwapAttempts s₁ = .ok none s' ∧
          reads s' = u.readsBefore Monitor.maxSwapAttempts) := by
  have hretry := Reading.retry_of_answers (h.attempt_run limit) Monitor.maxSwapAttempts 0 s₁ hs₁
  simp only [Nat.zero_add, UsageAnswers.attempt_eq_none_iff,
    UsageAnswers.attempt_eq_some_iff] at hretry
  exact hretry

theorem Monitor.freeSwap_noSwap (hm : m.container = some container)
    (h : container.Plays reads combinedLimit memoryLimit u) (hs : reads s = {})
    (hle : combinedLimit ≤ memoryLimit) :
    ∃ s', m.freeSwap s = .ok (some 0) s' ∧ reads s' = {} := by
  obtain ⟨s₁, hs₁, hnone, _⟩ := freeSwap_run hm h hs
  exact ⟨s₁, hnone hle, hs₁⟩

theorem Monitor.freeSwap_found (hm : m.container = some container)
    (h : container.Plays reads combinedLimit memoryLimit u) (hs : reads s = {})
    (hlt : memoryLimit < combinedLimit) {n : Nat} {free : Counter} (hn : n < 10)
    (hfirst : ∀ i < n, ∀ free', ¬u.Fits (combinedLimit.toNat - memoryLimit.toNat) i free')
    (hfits : u.Fits (combinedLimit.toNat - memoryLimit.toNat) n free) :
    ∃ s', m.freeSwap s = .ok (some free) s' ∧ reads s' = u.readsBefore (n + 1) := by
  obtain ⟨s₁, hs₁, _, hrun⟩ := freeSwap_run hm h hs
  rw [← (swap_eq_some hlt).2] at hfirst hfits
  obtain ⟨s', hretry, hs'⟩ := (h.retry_run _ hs₁).1 n free hn hfirst hfits
  refine ⟨s', ?_, hs'⟩
  rw [hrun hlt, Reading.bind_ok hretry]
  rfl

theorem Monitor.freeSwap_exhausted (hm : m.container = some container)
    (h : container.Plays reads combinedLimit memoryLimit u) (hs : reads s = {})
    (hlt : memoryLimit < combinedLimit)
    (hnone : ∀ i < 10, ∀ free, ¬u.Fits (combinedLimit.toNat - memoryLimit.toNat) i free) :
    ∃ s', reads s' = u.readsBefore 10 ∧ m.freeSwap s = m.host.freeSwap s' := by
  obtain ⟨s₁, hs₁, _, hrun⟩ := freeSwap_run hm h hs
  rw [← (swap_eq_some hlt).2] at hnone
  obtain ⟨s', hretry, hs'⟩ := (h.retry_run _ hs₁).2 hnone
  refine ⟨s', hs', ?_⟩
  rw [hrun hlt, Reading.bind_ok hretry]

/-- The free swap of a container with both limits, whatever its usages answer from reading to
reading. -/
theorem freeSwap_of_plays [LoadScale α] (hm : m.container = some container)
    (h : container.Plays reads combinedLimit memoryLimit u) (hs : reads s = {}) :
    FreeSwapLaw m reads combinedLimit memoryLimit u s where
  noSwap := m.freeSwap_noSwap hm h hs
  found hlt n free hn hfirst hfits := by
    exact ⟨hfits.le, m.freeSwap_found hm h hs hlt hn hfirst hfits⟩
  exhausted := m.freeSwap_exhausted hm h hs
  missing := by
    intro history s₂ hread
    -- The session hands on what the free swap answers, so it answered none.
    have hanswer : m.freeSwap s = .ok none s₂.source := by
      cases hamount : Monitor.amount m.freeSwap ⟨history, s⟩ with
      | ok n s' =>
          rw [Monitor.read, Reading.map_ok hamount] at hread
          injection hread with hvalue hs'
          injection hvalue with hn
          rw [hn, hs'] at hamount
          exact Monitor.amount_eq_neg_one hamount
      | error fault s' =>
          rw [Monitor.read, Reading.map_error hamount] at hread
          cases hread
    by_cases hle : combinedLimit ≤ memoryLimit
    · obtain ⟨s', hzero, _⟩ := m.freeSwap_noSwap hm h hs hle
      rw [hanswer] at hzero
      cases hzero
    · have hlt : memoryLimit < combinedLimit := UInt64.not_le.1 hle
      refine ⟨hlt, ?_⟩
      rcases u.first_fit (combinedLimit.toNat - memoryLimit.toNat) 10 with
        ⟨n, free, hn, hfirst, hfits⟩ | hnone
      · obtain ⟨s', hfound, _⟩ := m.freeSwap_found hm h hs hlt hn hfirst hfits
        rw [hanswer] at hfound
        cases hfound
      · obtain ⟨s', hs', hhost⟩ := m.freeSwap_exhausted hm h hs hlt hnone
        exact ⟨hnone, s', hs', hhost.symm.trans hanswer⟩

end FreeSwap

/-- A container with these limits and answers. Its state is what has been read. -/
def UsageAnswers.container (u : UsageAnswers) (combinedLimit memoryLimit : Counter) :
    ContainerSource UsageReads where
  memoryLimit := pure (some memoryLimit)
  combinedLimit := pure (some combinedLimit)
  memoryUsage := fun reads => .ok (u.memory reads) ⟨reads.combined, reads.memory + 1⟩
  combinedUsage := fun reads => .ok (u.combined reads) ⟨reads.combined + 1, reads.memory⟩
  quota := pure none
  period := pure none
  elapsedPeriods := pure none
  shares := pure none
  cpuUsage := pure none
  configuredCpus := pure []
  effectiveCpus := pure []

theorem UsageAnswers.container_plays (u : UsageAnswers) (combinedLimit memoryLimit : Counter) :
    (u.container combinedLimit memoryLimit).Plays id combinedLimit memoryLimit u where
  combinedLimit reads := ⟨reads, rfl, rfl⟩
  memoryLimit reads := ⟨reads, rfl, rfl⟩
  combinedUsage _ := ⟨_, rfl, rfl⟩
  memoryUsage _ := ⟨_, rfl, rfl⟩

/-- A host that knows nothing. -/
def HostSource.silent : HostSource σ α where
  totalSwap := pure none
  freeSwap := pure none
  totalMemory := pure none
  freeMemory := pure none
  load := pure none
  cpuLoad _ := pure none
  totalTime := pure none
  onlineCpus := pure none
  configuredCpus := pure none
  processLoad := pure none
  processTime := pure none
  committedMemory := pure none
  openDescriptors := pure none
  maxDescriptors := pure none

/-- The combined usage is missing at first, then too small once, and fits the third time. -/
def settlingUsage : UsageAnswers where
  combined reads := [none, some 300].getD reads.combined (some 500)
  memory _ := some 400

/-- The memory usage is read in two of the three attempts. -/
theorem freeSwap_of_plays_settling :
    ∃ s', ({ host := .silent, container := some (settlingUsage.container 1000 800) } :
        Monitor UsageReads Rat).freeSwap {} = .ok (some 100) s' ∧ s' = ⟨3, 2⟩ := by
  have hfits : settlingUsage.Fits 200 2 100 :=
    ⟨500, 400, rfl, by decide, rfl, by decide, by decide, by decide, by decide⟩
  have hfails : ∀ i < 2, settlingUsage.attempt 200 i = none := by decide
  refine ((freeSwap_of_plays rfl (settlingUsage.container_plays 1000 800) rfl).found (by decide)
    2 100 (by decide) ?_ hfits).2
  intro i hi
  have hnone := UsageAnswers.attempt_eq_none_iff.1 (hfails i hi)
  exact hnone

end ResourceMetrics
