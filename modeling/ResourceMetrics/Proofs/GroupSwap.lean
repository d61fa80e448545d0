import ResourceMetrics.Service
import ResourceMetrics.Proofs.HostWindows

/-! Swap of a container that is a control group. The group has a limit and a usage of swap alone;
its source adds those of memory to them, and the monitor takes them away again. While the files
stay as they are, memory cancels out: what is left of it is that its numbers have to be there and
that the sums have to fit a counter. -/

namespace ResourceMetrics

variable {σ α : Type}

theorem available_eq_some_iff {ε β : Type} {e : Except ε β} {b : β} :
    available e = some b ↔ e = .ok b := by
  cases e with
  | ok b' => rw [available, Option.some.injEq, Except.ok.injEq]
  | error cause => exact iff_of_false nofun nofun

/-- Attempts that never change answer at the first one or not at all. -/
theorem Reading.retry_pure (b : Option β) (n : Nat) :
    (pure b : Reading σ (Option β)).retry (n + 1) = pure b := by
  cases b with
  | some b => rfl
  | none =>
      induction n with
      | zero => rfl
      | succ n ih => exact ih

namespace ControlGroup

variable (dir : Path) (tree : FileTree)

/-- An interface file can be read and parsed. -/
def Shows {β : Type} (name : String) (format : Bytes → Except StatError β) (b : β) : Prop :=
  tree.parse (dir.join (Path.ofString name)) format = .ok b

/-- Both limits are numbers, and their sum fits a counter. -/
structure Limits (memory swap : Counter) : Prop where
  memoryMax : Shows dir tree "memory.max" MemoryLimit.read (some memory)
  swapMax : Shows dir tree "memory.swap.max" MemoryLimit.read (some swap)
  sum_lt : memory.toNat + swap.toNat < UInt64.size

/-- The swap in use, none if its file cannot be read or parsed. -/
inductive SwapInUse : Counter → Prop
  | shown {used : Counter} : Shows dir tree "memory.swap.current" MemoryAmount.read used →
      SwapInUse used
  | hidden : (∀ used, ¬Shows dir tree "memory.swap.current" MemoryAmount.read used) → SwapInUse 0

/-- Memory is in use, with the swap in use it fits a counter, and the swap fits its limit. -/
structure Usage (limit used : Counter) : Prop where
  memory : ∃ memory, Shows dir tree "memory.current" MemoryAmount.read memory ∧ 0 < memory ∧
    memory.toNat + used.toNat < UInt64.size
  swap : SwapInUse dir tree used
  le : used ≤ limit

variable {dir tree}

theorem file?_eq_some_iff {β : Type} {name : String} {format : Bytes → Except StatError β}
    {b : β} : file? tree dir name format = some b ↔ Shows dir tree name format b :=
  available_eq_some_iff

theorem not_shows_of_file?_eq_none {β : Type} {name : String}
    {format : Bytes → Except StatError β} (h : file? tree dir name format = none) (b : β) :
    ¬Shows dir tree name format b := by
  intro hshows
  rw [file?_eq_some_iff.2 hshows] at h
  cases h

theorem memoryLimit_eq_some_iff {memory : Counter} : memoryLimit dir tree = some memory ↔
    Shows dir tree "memory.max" MemoryLimit.read (some memory) := by
  unfold memoryLimit
  simp only [bind, Option.bind_eq_some_iff, file?_eq_some_iff, exists_eq_right]

/-- The combined limit is there exactly if both limits are and their sum fits. -/
theorem combinedLimit_eq_some_iff {combined : Counter} :
    combinedLimit dir tree = some combined ↔
      ∃ memory swap, Limits dir tree memory swap ∧ memory.toNat + swap.toNat = combined.toNat := by
  unfold combinedLimit
  simp only [bind, Option.bind_eq_some_iff, file?_eq_some_iff, memoryLimit_eq_some_iff,
    Counter.add?_eq_some_iff]
  constructor
  · rintro ⟨_, hswap, swap, rfl, memory, hmemory, hsum⟩
    exact ⟨memory, swap, ⟨hmemory, hswap, hsum ▸ combined.toNat_lt_size⟩, hsum⟩
  · rintro ⟨memory, swap, h, hsum⟩
    exact ⟨some swap, h.swapMax, swap, rfl, memory, h.memoryMax, hsum⟩

theorem combinedLimit_of_limits {memory swap : Counter} (h : Limits dir tree memory swap) :
    ∃ combined, combinedLimit dir tree = some combined ∧
      memory.toNat + swap.toNat = combined.toNat := by
  have hsum : (UInt64.ofNat (memory.toNat + swap.toNat)).toNat = memory.toNat + swap.toNat :=
    UInt64.toNat_ofNat_of_lt' h.sum_lt
  exact ⟨_, combinedLimit_eq_some_iff.2 ⟨memory, swap, h, hsum.symm⟩, hsum.symm⟩

theorem combinedLimit_eq_none (h : ∀ memory swap, ¬Limits dir tree memory swap) :
    combinedLimit dir tree = none := by
  rw [Option.eq_none_iff_forall_ne_some]
  intro combined hcombined
  obtain ⟨memory, swap, hlimits, _⟩ := combinedLimit_eq_some_iff.1 hcombined
  exact h memory swap hlimits

theorem swapInUse_getD :
    SwapInUse dir tree ((file? tree dir "memory.swap.current" MemoryAmount.read).getD 0) := by
  cases hfile : file? tree dir "memory.swap.current" MemoryAmount.read with
  | some used => exact .shown (file?_eq_some_iff.1 hfile)
  | none => exact .hidden (not_shows_of_file?_eq_none hfile)

theorem SwapInUse.unique {used used' : Counter} (h : SwapInUse dir tree used)
    (h' : SwapInUse dir tree used') : used = used' := by
  cases h with
  | shown hused =>
      cases h' with
      | shown hused' => exact Except.ok.inj (hused.symm.trans hused')
      | hidden hnone => exact absurd hused (hnone _)
  | hidden hnone =>
      cases h' with
      | shown hused' => exact absurd hused' (hnone _)
      | hidden _ => rfl

theorem combinedUsage_eq_some_iff {combined : Counter} :
    combinedUsage dir tree = some combined ↔ ∃ memory used,
      Shows dir tree "memory.current" MemoryAmount.read memory ∧ SwapInUse dir tree used ∧
        memory.toNat + used.toNat = combined.toNat := by
  unfold combinedUsage memoryUsage
  simp only [bind, Option.bind_eq_some_iff, file?_eq_some_iff, Counter.add?_eq_some_iff]
  constructor
  · rintro ⟨memory, hmemory, hsum⟩
    exact ⟨memory, _, hmemory, swapInUse_getD, hsum⟩
  · rintro ⟨memory, used, hmemory, hused, hsum⟩
    exact ⟨memory, hmemory, by rw [swapInUse_getD.unique hused]; exact hsum⟩

variable (dir tree)

/-- What every attempt at the free swap answers. -/
def freeSwapIn (limit : Counter) : Option Counter := do
  let combined ← positive? (combinedUsage dir tree)
  let memory ← positive? (memoryUsage dir tree)
  let swap ← combined.sub? memory
  limit.sub? swap

theorem sampleFreeSwap_source (limit : Counter) :
    (source dir tree : ContainerSource σ).sampleFreeSwap limit =
      pure (freeSwapIn dir tree limit) := by
  unfold ContainerSource.sampleFreeSwap freeSwapIn
  simp only [source, pure_bind]
  cases positive? (combinedUsage dir tree) with
  | none => rfl
  | some combined =>
      dsimp only
      cases positive? (memoryUsage dir tree) with
      | none => rfl
      | some memory => rfl

variable {dir tree}

/-- Memory cancels out of the two usages. -/
theorem freeSwapIn_eq_some_iff {limit free : Counter} : freeSwapIn dir tree limit = some free ↔
    ∃ used, Usage dir tree limit used ∧ free = limit - used := by
  unfold freeSwapIn
  simp only [bind, Option.bind_eq_some_iff, positive?_eq_some_iff, Counter.sub?_eq_some_iff,
    combinedUsage_eq_some_iff, memoryUsage, file?_eq_some_iff]
  constructor
  · rintro ⟨combined, ⟨⟨memory, used, hmemory, hused, hsum⟩, -⟩, memory', ⟨hmemory', hpos⟩,
      swap, hswap, hfree⟩
    obtain rfl : memory = memory' := Except.ok.inj (hmemory.symm.trans hmemory')
    obtain rfl : used = swap := UInt64.toNat_inj.1 (by omega)
    have hle : used ≤ limit := UInt64.le_iff_toNat_le.2 (by omega)
    refine ⟨used, ⟨⟨memory, hmemory, hpos, hsum ▸ combined.toNat_lt_size⟩, hused, hle⟩, ?_⟩
    rw [← UInt64.toNat_inj, UInt64.toNat_sub_of_le _ _ hle]
    omega
  · rintro ⟨used, ⟨⟨memory, hmemory, hpos, hlt⟩, hused, hle⟩, rfl⟩
    have hsum : (UInt64.ofNat (memory.toNat + used.toNat)).toNat = memory.toNat + used.toNat :=
      UInt64.toNat_ofNat_of_lt' hlt
    have hmemory_pos := UInt64.lt_iff_toNat_lt.1 hpos
    have hcombined : (0 : Counter) < UInt64.ofNat (memory.toNat + used.toNat) := by
      rw [UInt64.lt_iff_toNat_lt, hsum]
      omega
    refine ⟨_, ⟨⟨memory, used, hmemory, hused, hsum.symm⟩, hcombined⟩, memory, ⟨hmemory, hpos⟩,
      used, hsum.symm, ?_⟩
    rw [UInt64.toNat_sub_of_le _ _ hle]
    have hle' := UInt64.le_iff_toNat_le.1 hle
    omega

end ControlGroup

open ControlGroup

/-- What the monitor answers about swap while the files of the group stay as they are. -/
structure GroupSwapLaw (m : Monitor σ α) (dir : Path) (tree : FileTree) (s : σ) : Prop where
  total : ∀ {memory swap}, Limits dir tree memory swap → m.totalSwap s = .ok (some swap) s
  noSwap : ∀ {memory}, Limits dir tree memory 0 → m.freeSwap s = .ok (some 0) s
  free : ∀ {memory swap used}, Limits dir tree memory swap → 0 < swap →
    Usage dir tree swap used → m.freeSwap s = .ok (some (swap - used)) s
  unfit : ∀ {memory swap}, Limits dir tree memory swap → 0 < swap →
    (∀ used, ¬Usage dir tree swap used) → m.freeSwap s = m.host.freeSwap s
  unlimited : (∀ memory swap, ¬Limits dir tree memory swap) →
    m.totalSwap s = m.host.totalSwap s ∧ m.freeSwap s = m.host.freeSwap s

namespace Monitor

variable {m : Monitor σ α} {dir : Path} {tree : FileTree}
  (hm : m.container = some (source dir tree))

include hm in
theorem totalSwap_of_group : m.totalSwap =
    match combinedLimit dir tree, memoryLimit dir tree with
    | some combined, some memory => pure (some (combined.monus memory))
    | _, _ => m.host.totalSwap := by
  unfold totalSwap ContainerSource.swapLimit
  rw [hm]
  simp only [source, pure_bind]
  cases combinedLimit dir tree with
  | none => rfl
  | some combined =>
      dsimp only
      cases memoryLimit dir tree with
      | none => rfl
      | some memory => rfl

include hm in
theorem freeSwap_of_group : m.freeSwap =
    match combinedLimit dir tree, memoryLimit dir tree with
    | some combined, some memory =>
      match positive? (combined.sub? memory) with
      | none => pure (some 0)
      | some limit =>
        match freeSwapIn dir tree limit with
        | some free => pure (some free)
        | none => m.host.freeSwap
    | _, _ => m.host.freeSwap := by
  have hattempts (limit : Counter) :
      ((source dir tree : ContainerSource σ).sampleFreeSwap limit).retry maxSwapAttempts =
        pure (freeSwapIn dir tree limit) := by
    rw [sampleFreeSwap_source, maxSwapAttempts, Reading.retry_pure]
  unfold freeSwap
  rw [hm]
  simp only [hattempts]
  cases hcombined : combinedLimit dir tree with
  | none => simp only [source, hcombined, pure_bind]
  | some combined =>
      cases hmemory : memoryLimit dir tree with
      | none => simp only [source, hcombined, hmemory, pure_bind]
      | some memory =>
          cases hlimit : positive? (combined.sub? memory) with
          | none => simp only [source, hcombined, hmemory, hlimit, pure_bind]
          | some limit =>
              cases hfree : freeSwapIn dir tree limit with
              | none => simp only [source, hcombined, hmemory, hlimit, hfree, pure_bind]
              | some free => simp only [source, hcombined, hmemory, hlimit, hfree, pure_bind]

end Monitor

section Law

variable {m : Monitor σ α} {dir : Path} {tree : FileTree} {memory swap : Counter} {s : σ}
  (hm : m.container = some (source dir tree))

include hm in
theorem totalSwap_of_limits (h : Limits dir tree memory swap) :
    m.totalSwap s = .ok (some swap) s := by
  obtain ⟨combined, hcombined, hsum⟩ := combinedLimit_of_limits h
  have hmonus : combined.monus memory = swap := by
    rw [← UInt64.toNat_inj, Counter.toNat_monus]
    omega
  rw [m.totalSwap_of_group hm, hcombined, memoryLimit_eq_some_iff.2 h.memoryMax]
  dsimp only
  rw [hmonus]
  rfl

include hm in
/-- Between limits that fit, the free swap is decided by the limit of swap alone. -/
theorem freeSwap_of_limits (h : Limits dir tree memory swap) : m.freeSwap =
    match positive? (some swap) with
    | none => pure (some 0)
    | some limit =>
      match freeSwapIn dir tree limit with
      | some free => pure (some free)
      | none => m.host.freeSwap := by
  obtain ⟨combined, hcombined, hsum⟩ := combinedLimit_of_limits h
  have hsub : combined.sub? memory = some swap := Counter.sub?_eq_some_iff.2 hsum
  rw [m.freeSwap_of_group hm, hcombined, memoryLimit_eq_some_iff.2 h.memoryMax]
  dsimp only
  rw [hsub]

include hm in
/-- Swap of a control group whose files stay as they are, by the numbers of its swap controller. -/
theorem swap_of_group (s : σ) : GroupSwapLaw m dir tree s where
  total := totalSwap_of_limits hm
  noSwap h := by
    rw [freeSwap_of_limits hm h]
    rfl
  free {memory swap used} h hpos husage := by
    have hfree := freeSwapIn_eq_some_iff.2 ⟨used, husage, rfl⟩
    rw [freeSwap_of_limits hm h, positive?_eq_some_iff.2 ⟨rfl, hpos⟩]
    dsimp only
    rw [hfree]
    rfl
  unfit {memory swap} h hpos hunfit := by
    have hnone : freeSwapIn dir tree swap = none := by
      rw [Option.eq_none_iff_forall_ne_some]
      intro free hfree
      obtain ⟨used, husage, _⟩ := freeSwapIn_eq_some_iff.1 hfree
      exact hunfit used husage
    rw [freeSwap_of_limits hm h, positive?_eq_some_iff.2 ⟨rfl, hpos⟩]
    dsimp only
    rw [hnone]
  unlimited h := by
    rw [m.totalSwap_of_group hm, m.freeSwap_of_group hm, combinedLimit_eq_none h]
    exact ⟨rfl, rfl⟩

end Law

/-- A group that uses 50 of its 200 bytes of swap. -/
def swappingGroup : FileTree where
  entries :=
    [([Path.ofString "group"], .directory),
      ([Path.ofString "group", Path.ofString "memory.max"], .file (Path.ofString "1000\n")),
      ([Path.ofString "group", Path.ofString "memory.swap.max"], .file (Path.ofString "200\n")),
      ([Path.ofString "group", Path.ofString "memory.current"], .file (Path.ofString "700\n")),
      ([Path.ofString "group", Path.ofString "memory.swap.current"],
        .file (Path.ofString "50\n"))]

theorem swap_of_group_swapping :
    (linuxMonitor HostFiles.relative (some (Path.ofString "group")) swappingGroup :
        Monitor LoadWindows Rat).totalSwap {} = .ok (some 200) {} ∧
      (linuxMonitor HostFiles.relative (some (Path.ofString "group")) swappingGroup :
        Monitor LoadWindows Rat).freeSwap {} = .ok (some 150) {} := by
  have hlaw : GroupSwapLaw
      (linuxMonitor HostFiles.relative (some (Path.ofString "group")) swappingGroup :
        Monitor LoadWindows Rat)
      (Path.ofString "group") swappingGroup {} :=
    swap_of_group rfl _
  have hlimits : Limits (Path.ofString "group") swappingGroup 1000 200 := ⟨rfl, rfl, by decide⟩
  exact ⟨hlaw.total hlimits,
    hlaw.free hlimits (by decide) ⟨⟨700, rfl, by decide, by decide⟩, .shown rfl, by decide⟩⟩

end ResourceMetrics
