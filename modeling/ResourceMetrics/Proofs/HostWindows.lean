import ResourceMetrics.HostFiles
import ResourceMetrics.Proofs.Reading

/-! The load windows of a host over whole runs, with files that change from call to call. A window
moves only at calls under its own key that find their files readable. What a call finds is told from
its files alone, apart from the windows: a sample, the lack of one, or ticks whose sum is too large
for a counter, which makes the call fault. -/

namespace ResourceMetrics

namespace HostFiles

variable (host : HostFiles) (tree : FileTree)

def ShowsTicks (ticks : HostTicks) : Prop :=
  tree.parse (host.procRoot.join (Path.ofString "stat")) HostTicks.read = .ok ticks

def ShowsProcess (stat : ProcessStat) : Prop :=
  tree.parse (host.procRoot.join (Path.ofString "self/stat")) ProcessStat.read = .ok stat

/-- Reading the CPU lines of `stat` comes to a line whose sum exceeds a counter. -/
def TicksOverflow : Prop :=
  ∃ path fault, tree.parse (host.procRoot.join (Path.ofString "stat")) HostTicks.read =
    .error (.parsing path (.overflow fault))

/-- The sample that the files show under a key. -/
inductive Shows : LoadKey → CpuTicks → Prop
  | host {ticks : HostTicks} : host.ShowsTicks tree ticks → Shows .host ticks.all
  | cpu {ticks : HostTicks} {index : CpuIndex} {sample : CpuTicks} :
      host.ShowsTicks tree ticks → ticks.cpu? index = some sample → Shows (.cpu index) sample
  | process {stat : ProcessStat} {ticks : HostTicks} {busy : Counter} :
      host.ShowsProcess tree stat → stat.userTicks.toNat + stat.systemTicks.toNat = busy.toNat →
        host.ShowsTicks tree ticks → Shows .process ⟨busy, ticks.all.total⟩

/-- A file that the load under a key needs cannot be read or parsed, or has no line for its CPU. -/
inductive Lacks : LoadKey → Prop
  | ticks {key : LoadKey} : (∀ ticks, ¬host.ShowsTicks tree ticks) → Lacks key
  | cpu {ticks : HostTicks} {index : CpuIndex} :
      host.ShowsTicks tree ticks → ticks.cpu? index = none → Lacks (.cpu index)
  | process : (∀ stat, ¬host.ShowsProcess tree stat) → Lacks .process

/-- A sum of ticks that the load under a key needs exceeds a counter. -/
inductive Overflows : LoadKey → Prop
  | host : host.TicksOverflow tree → Overflows .host
  | cpu {index : CpuIndex} : host.TicksOverflow tree → Overflows (.cpu index)
  | processTicks {stat : ProcessStat} : host.ShowsProcess tree stat → host.TicksOverflow tree →
      Overflows .process
  | processSum {stat : ProcessStat} : host.ShowsProcess tree stat →
      UInt64.size ≤ stat.userTicks.toNat + stat.systemTicks.toNat → Overflows .process

variable {host tree}

theorem ShowsTicks.unique {ticks ticks' : HostTicks} (h : host.ShowsTicks tree ticks)
    (h' : host.ShowsTicks tree ticks') : ticks = ticks' :=
  Except.ok.inj (h.symm.trans h')

theorem ShowsProcess.unique {stat stat' : ProcessStat} (h : host.ShowsProcess tree stat)
    (h' : host.ShowsProcess tree stat') : stat = stat' :=
  Except.ok.inj (h.symm.trans h')

/-- Files show one sample under a key at most. -/
theorem Shows.unique {key : LoadKey} {sample sample' : CpuTicks} (h : host.Shows tree key sample)
    (h' : host.Shows tree key sample') : sample = sample' := by
  cases h with
  | host hticks =>
      cases h' with
      | host hticks' => rw [hticks.unique hticks']
  | cpu hticks hcpu =>
      cases h' with
      | cpu hticks' hcpu' =>
          rw [hticks.unique hticks', hcpu'] at hcpu
          exact (Option.some.inj hcpu).symm
  | process hstat hbusy hticks =>
      cases h' with
      | process hstat' hbusy' hticks' =>
          rw [hstat.unique hstat', hbusy', UInt64.toNat_inj] at hbusy
          rw [hticks.unique hticks', hbusy]

theorem not_showsTicks_of_overflow (h : host.TicksOverflow tree) (ticks : HostTicks) :
    ¬host.ShowsTicks tree ticks := by
  intro hticks
  obtain ⟨path, fault, herror⟩ := h
  rw [ShowsTicks, herror] at hticks
  cases hticks

theorem Shows.not_lacks {key : LoadKey} {sample : CpuTicks} (h : host.Shows tree key sample) :
    ¬host.Lacks tree key := by
  intro hlacks
  cases h with
  | host hticks =>
      cases hlacks with
      | ticks hnone => exact hnone _ hticks
  | cpu hticks hcpu =>
      cases hlacks with
      | ticks hnone => exact hnone _ hticks
      | cpu hticks' hcpu' =>
          rw [hticks.unique hticks', hcpu'] at hcpu
          cases hcpu
  | process hstat _ hticks =>
      cases hlacks with
      | ticks hnone => exact hnone _ hticks
      | process hnone => exact hnone _ hstat

theorem Shows.not_overflows {key : LoadKey} {sample : CpuTicks}
    (h : host.Shows tree key sample) : ¬host.Overflows tree key := by
  intro hover
  cases h with
  | host hticks =>
      cases hover with
      | host hover => exact not_showsTicks_of_overflow hover _ hticks
  | cpu hticks hcpu =>
      cases hover with
      | cpu hover => exact not_showsTicks_of_overflow hover _ hticks
  | @process stat ticks busy hstat hbusy hticks =>
      cases hover with
      | processTicks _ hover => exact not_showsTicks_of_overflow hover _ hticks
      | processSum hstat' hsize =>
          rw [hstat'.unique hstat, hbusy] at hsize
          exact absurd busy.toNat_lt_size (Nat.not_lt.2 hsize)

/-- What a call under a key finds, from the files alone. -/
inductive Finds (host : HostFiles) (tree : FileTree) (key : LoadKey) :
    Except Overflow (Option CpuTicks) → Prop
  | sample {sample : CpuTicks} : host.Shows tree key sample →
      Finds host tree key (.ok (some sample))
  | nothing : ¬host.Overflows tree key → host.Lacks tree key → Finds host tree key (.ok none)
  | fault {fault : Overflow} : host.Overflows tree key → Finds host tree key (.error fault)

theorem hostTicks_cases (host : HostFiles) (tree : FileTree) :
    (∃ ticks, host.hostTicks tree = .ok (some ticks) ∧ host.ShowsTicks tree ticks) ∨
      (host.hostTicks tree = .ok none ∧ ¬host.TicksOverflow tree ∧
        ∀ ticks, ¬host.ShowsTicks tree ticks) ∨
      ∃ fault, host.hostTicks tree = .error fault ∧ host.TicksOverflow tree := by
  unfold hostTicks TicksOverflow ShowsTicks
  cases hparse : tree.parse (host.procRoot.join (Path.ofString "stat")) HostTicks.read with
  | ok ticks => exact Or.inl ⟨ticks, rfl, rfl⟩
  | error cause =>
      refine Or.inr ?_
      split
      · rename_i hok
        cases hok
      · rename_i path fault herror
        exact Or.inr ⟨fault, rfl, path, fault, herror⟩
      · rename_i hother hcause
        refine Or.inl ⟨rfl, ?_, nofun⟩
        rintro ⟨path, fault, herror⟩
        exact hother path fault (Except.error.inj (hcause.symm.trans herror))

theorem processStat_cases (host : HostFiles) (tree : FileTree) :
    (∃ stat, host.processStat tree = some stat ∧ host.ShowsProcess tree stat) ∨
      (host.processStat tree = none ∧ ∀ stat, ¬host.ShowsProcess tree stat) := by
  unfold processStat ShowsProcess
  cases hparse : tree.parse (host.procRoot.join (Path.ofString "self/stat")) ProcessStat.read with
  | ok stat => exact Or.inl ⟨stat, rfl, rfl⟩
  | error cause => exact Or.inr ⟨rfl, nofun⟩

/-- A file that cannot be read is found before the other one is summed up. -/
theorem sample_finds (host : HostFiles) (tree : FileTree) (key : LoadKey) :
    host.Finds tree key (host.sample tree key) := by
  cases key with
  | host =>
      rcases host.hostTicks_cases tree with
        ⟨ticks, hrun, hticks⟩ | ⟨hrun, hover, hnone⟩ | ⟨fault, hrun, hover⟩
      · simp only [sample, hrun]
        exact .sample (.host hticks)
      · simp only [sample, hrun]
        refine .nothing ?_ (.ticks hnone)
        intro hhost
        cases hhost with
        | host hover' => exact hover hover'
      · simp only [sample, hrun]
        exact .fault (.host hover)
  | cpu index =>
      rcases host.hostTicks_cases tree with
        ⟨ticks, hrun, hticks⟩ | ⟨hrun, hover, hnone⟩ | ⟨fault, hrun, hover⟩
      · have hsample : host.sample tree (.cpu index) = .ok (ticks.cpu? index) := by
          simp only [sample, hrun]
          rfl
        rw [hsample]
        cases hcpu : ticks.cpu? index with
        | some sample => exact .sample (.cpu hticks hcpu)
        | none =>
            refine .nothing ?_ (.cpu hticks hcpu)
            intro hcpu
            cases hcpu with
            | cpu hover => exact not_showsTicks_of_overflow hover ticks hticks
      · simp only [sample, hrun]
        refine .nothing ?_ (.ticks hnone)
        intro hcpu
        cases hcpu with
        | cpu hover' => exact hover hover'
      · simp only [sample, hrun]
        exact .fault (.cpu hover)
  | process =>
      rcases host.processStat_cases tree with ⟨stat, hrun, hstat⟩ | ⟨hrun, hnone⟩
      · cases hbusy : stat.ticks with
        | error fault =>
            simp only [sample, hrun, hbusy]
            exact .fault (.processSum hstat (Counter.addOrFault_error_iff.1 ⟨fault, hbusy⟩))
        | ok busy =>
            have hsum := Counter.addOrFault_eq_ok_iff.1 hbusy
            rcases host.hostTicks_cases tree with
              ⟨ticks, hrun', hticks⟩ | ⟨hrun', hover, hnone⟩ | ⟨fault, hrun', hover⟩
            · simp only [sample, hrun, hbusy, hrun']
              exact .sample (.process hstat hsum hticks)
            · simp only [sample, hrun, hbusy, hrun']
              refine .nothing ?_ (.ticks hnone)
              intro hprocess
              cases hprocess with
              | processTicks _ hover' => exact hover hover'
              | processSum hstat' hsize =>
                  rw [hstat'.unique hstat, hsum] at hsize
                  exact absurd busy.toNat_lt_size (Nat.not_lt.2 hsize)
            · simp only [sample, hrun, hbusy, hrun']
              exact .fault (.processTicks hstat hover)
      · simp only [sample, hrun]
        refine .nothing ?_ (.process hnone)
        intro hprocess
        cases hprocess with
        | processTicks hstat _ => exact hnone _ hstat
        | processSum hstat _ => exact hnone _ hstat

theorem sample_of_shows {key : LoadKey} {sample : CpuTicks} (h : host.Shows tree key sample) :
    host.sample tree key = .ok (some sample) := by
  have hfinds := host.sample_finds tree key
  generalize host.sample tree key = found at hfinds ⊢
  cases hfinds with
  | sample h' => rw [h.unique h']
  | nothing _ hlacks => exact absurd hlacks h.not_lacks
  | fault hover => exact absurd hover h.not_overflows

theorem sample_of_lacks {key : LoadKey} (hover : ¬host.Overflows tree key)
    (h : host.Lacks tree key) : host.sample tree key = .ok none := by
  have hfinds := host.sample_finds tree key
  generalize host.sample tree key = found at hfinds ⊢
  cases hfinds with
  | sample hshows => exact absurd h hshows.not_lacks
  | nothing _ _ => rfl
  | fault hover' => exact absurd hover' hover

theorem sample_of_overflows {key : LoadKey} (h : host.Overflows tree key) :
    ∃ fault, host.sample tree key = .error fault := by
  have hfinds := host.sample_finds tree key
  generalize host.sample tree key = found at hfinds ⊢
  cases hfinds with
  | sample hshows => exact absurd h hshows.not_overflows
  | nothing hover _ => exact absurd h hover
  | fault _ => exact ⟨_, rfl⟩

theorem shows_or_lacks {key : LoadKey} (hover : ¬host.Overflows tree key) :
    (∃ sample, host.Shows tree key sample) ∨ host.Lacks tree key := by
  have hfinds := host.sample_finds tree key
  generalize host.sample tree key = found at hfinds
  cases hfinds with
  | sample hshows => exact Or.inl ⟨_, hshows⟩
  | nothing _ hlacks => exact Or.inr hlacks
  | fault hover' => exact absurd hover' hover

section Call

variable {α : Type} [LoadScale α] {key : LoadKey} {sample : CpuTicks}

theorem load_of_shows (h : host.Shows tree key sample) (windows : LoadWindows) :
    (host.load tree key : Reading LoadWindows (Option α)) windows =
      .ok (some (sample.loadSince (windows.last key))) (windows.record key sample) := by
  unfold load
  rw [sample_of_shows h]
  rfl

theorem load_of_lacks (hover : ¬host.Overflows tree key) (h : host.Lacks tree key)
    (windows : LoadWindows) :
    (host.load tree key : Reading LoadWindows (Option α)) windows = .ok none windows := by
  unfold load
  rw [sample_of_lacks hover h]
  rfl

theorem load_of_overflows (h : host.Overflows tree key) (windows : LoadWindows) :
    ∃ fault, (host.load tree key : Reading LoadWindows (Option α)) windows =
      .error fault windows := by
  obtain ⟨fault, hsample⟩ := sample_of_overflows h
  unfold load
  rw [hsample]
  exact ⟨fault, rfl⟩

theorem final_load_of_shows (h : host.Shows tree key sample) (windows : LoadWindows) :
    (host.load tree key : Reading LoadWindows (Option α)).final windows =
      windows.record key sample :=
  Reading.final_of_ok (load_of_shows h windows)

theorem final_load_of_not_shows (h : ∀ sample, ¬host.Shows tree key sample)
    (windows : LoadWindows) :
    (host.load tree key : Reading LoadWindows (Option α)).final windows = windows := by
  by_cases hover : host.Overflows tree key
  · obtain ⟨fault, hload⟩ :
        ∃ fault, (host.load tree key : Reading LoadWindows (Option α)) windows =
          .error fault windows := load_of_overflows hover windows
    rw [Reading.final, hload]
  · rcases shows_or_lacks hover with ⟨sample, hshows⟩ | hlacks
    · exact absurd hshows (h sample)
    · rw [Reading.final_of_ok (load_of_lacks hover hlacks windows)]

end Call

/-- What a load is that leads from one sample to another. -/
structure LoadBetween {α : Type} [LoadScale α] (last now : CpuTicks) (answer : α) : Prop where
  stalled : now.total ≤ last.total → answer = Load.zero
  grown : last.total < now.total →
    answer = Load.clamp (LoadScale.ofNat (now.busy.toNat - last.busy.toNat) /
      LoadScale.ofNat (now.total.toNat - last.total.toNat))

theorem loadBetween_loadSince {α : Type} [LoadScale α] (last now : CpuTicks) :
    LoadBetween last now (now.loadSince last : α) where
  stalled h := by
    rw [CpuTicks.loadSince, if_neg (UInt64.not_lt.2 h)]
  grown h := by
    rw [CpuTicks.loadSince, if_pos h, Load.ratio, Counter.toNat_monus,
      UInt64.toNat_sub_of_le _ _ (UInt64.le_of_lt h)]

/-- A load that is read under a key, with the files as they are then. -/
structure LoadCall where
  tree : FileTree
  key : LoadKey

/-- The windows after calls, the latest first, whether they answer or fault. -/
def windowsAfter (α : Type) [LoadScale α] (host : HostFiles) : List LoadCall → LoadWindows
  | [] => {}
  | call :: past =>
    (host.load call.tree call.key : Reading LoadWindows (Option α)).final (windowsAfter α host past)

/-- The sample of the latest call under a key that had one, zeros if there was none. -/
inductive Latest (host : HostFiles) : List LoadCall → LoadKey → CpuTicks → Prop
  | start (key : LoadKey) : Latest host [] key {}
  | own {call : LoadCall} {past : List LoadCall} {sample : CpuTicks} :
      host.Shows call.tree call.key sample → Latest host (call :: past) call.key sample
  | failed {call : LoadCall} {past : List LoadCall} {last : CpuTicks} :
      (∀ sample, ¬host.Shows call.tree call.key sample) → Latest host past call.key last →
        Latest host (call :: past) call.key last
  | other {call : LoadCall} {past : List LoadCall} {key : LoadKey} {last : CpuTicks} :
      key ≠ call.key → Latest host past key last → Latest host (call :: past) key last

section Run

variable {α : Type} [LoadScale α] {past : List LoadCall} {call : LoadCall}

theorem windowsAfter_of_shows {sample : CpuTicks} (h : host.Shows call.tree call.key sample) :
    host.windowsAfter α (call :: past) = (host.windowsAfter α past).record call.key sample :=
  final_load_of_shows h _

theorem windowsAfter_of_not_shows (h : ∀ sample, ¬host.Shows call.tree call.key sample) :
    host.windowsAfter α (call :: past) = host.windowsAfter α past :=
  final_load_of_not_shows h _

theorem latest_cons_of_shows {sample : CpuTicks} (h : host.Shows call.tree call.key sample)
    {last : CpuTicks} : host.Latest (call :: past) call.key last ↔ sample = last := by
  constructor
  · intro hlatest
    cases hlatest with
    | own h' => exact h.unique h'
    | failed hnone _ => exact absurd h (hnone sample)
    | other hne _ => exact absurd rfl hne
  · rintro rfl
    exact .own h

theorem latest_cons_of_not_shows (h : ∀ sample, ¬host.Shows call.tree call.key sample)
    {key : LoadKey} {last : CpuTicks} :
    host.Latest (call :: past) key last ↔ host.Latest past key last := by
  constructor
  · intro hlatest
    cases hlatest with
    | own h' => exact absurd h' (h last)
    | failed _ hlatest => exact hlatest
    | other _ hlatest => exact hlatest
  · intro hlatest
    by_cases hkey : key = call.key
    · rw [hkey] at hlatest ⊢
      exact .failed h hlatest
    · exact .other hkey hlatest

theorem latest_cons_of_ne {key : LoadKey} (h : key ≠ call.key) {last : CpuTicks} :
    host.Latest (call :: past) key last ↔ host.Latest past key last := by
  constructor
  · intro hlatest
    cases hlatest with
    | own _ => exact absurd rfl h
    | failed _ _ => exact absurd rfl h
    | other _ hlatest => exact hlatest
  · exact .other h

/-- After any run each window holds the latest sample of its own key. -/
theorem latest_iff (past : List LoadCall) (key : LoadKey) (last : CpuTicks) :
    host.Latest past key last ↔ (host.windowsAfter α past).last key = last := by
  induction past with
  | nil =>
      have hstart : (host.windowsAfter α []).last key = {} := by
        cases key <;> rfl
      rw [hstart]
      constructor
      · intro hlatest
        cases hlatest
        rfl
      · rintro rfl
        exact .start key
  | cons call past ih =>
      by_cases hshows : ∃ sample, host.Shows call.tree call.key sample
      · obtain ⟨sample, hshows⟩ := hshows
        rw [windowsAfter_of_shows hshows]
        by_cases hkey : key = call.key
        · rw [hkey, LoadWindows.last_record_self, latest_cons_of_shows hshows]
        · rw [LoadWindows.last_record_of_ne _ _ hkey, latest_cons_of_ne hkey, ih]
      · have hnone := not_exists.1 hshows
        rw [windowsAfter_of_not_shows hnone, latest_cons_of_not_shows hnone, ih]

/-- What a call answers after a run, with the windows that it leaves. -/
def answerAfter (α : Type) [LoadScale α] (host : HostFiles) (past : List LoadCall)
    (call : LoadCall) : EStateM.Result Overflow LoadWindows (Option α) :=
  host.load call.tree call.key (host.windowsAfter α past)

/-- What a call of a load does after a run: it faults where a sum overflows, and otherwise goes by
its files and the latest sample of its own key alone. -/
structure WindowLaw (α : Type) [LoadScale α] (host : HostFiles) (past : List LoadCall)
    (call : LoadCall) : Prop where
  fault : host.Overflows call.tree call.key →
    ∃ fault, host.answerAfter α past call = .error fault (host.windowsAfter α past)
  missing : ¬host.Overflows call.tree call.key → host.Lacks call.tree call.key →
    host.answerAfter α past call = .ok none (host.windowsAfter α past)
  answers : ¬host.Overflows call.tree call.key → ¬host.Lacks call.tree call.key →
    ∃ now last answer windows,
      host.Shows call.tree call.key now ∧ host.Latest past call.key last ∧
      host.answerAfter α past call = .ok (some answer) windows ∧
      LoadBetween last now answer ∧ windows.last call.key = now ∧
        ∀ key ≠ call.key, windows.last key = (host.windowsAfter α past).last key

/-- The windows of different keys are independent over whole runs. -/
theorem windowLaw (host : HostFiles) (past : List LoadCall) (call : LoadCall) :
    WindowLaw α host past call where
  fault hover := load_of_overflows hover _
  missing hover hlacks := load_of_lacks hover hlacks _
  answers hover hlacks := by
    obtain ⟨now, hshows⟩ := (shows_or_lacks hover).resolve_right hlacks
    refine ⟨now, _, _, _, hshows, (latest_iff past _ _).2 rfl, load_of_shows hshows _,
      loadBetween_loadSince _ _, LoadWindows.last_record_self _ _ _, ?_⟩
    intro key hkey
    exact LoadWindows.last_record_of_ne _ _ hkey

end Run

theorem usualRate_pos : (0 : Counter) < 100 := by decide

/-- A host whose files stand in `proc` and `sys`. -/
def relative : HostFiles where
  procRoot := Path.ofString "proc"
  sysRoot := Path.ofString "sys"
  ticksPerSecond_pos := usualRate_pos
  descriptorLimit := 512

/-- Both tick counts of the process fit a counter, but their sum does not. -/
def longProcess : FileTree where
  entries :=
    [([Path.ofString "proc"], .directory),
      ([Path.ofString "proc", Path.ofString "stat"],
        .file (Path.ofString "cpu  100 0 100 200 0 0 0 0\n")),
      ([Path.ofString "proc", Path.ofString "self"], .directory),
      ([Path.ofString "proc", Path.ofString "self", Path.ofString "stat"],
        .file (Path.ofString
          "1 (a) S 0 1 1 0 -1 0 0 0 0 0 18446744073709551615 1 0 0 20 0 1 0 9 4096 0\n"))]

/-- The files can be read and parsed, and yet the call does not return. -/
theorem processLoad_longProcess :
    relative.ShowsProcess longProcess ⟨18446744073709551615, 1, 4096⟩ ∧
      relative.ShowsTicks longProcess ⟨⟨200, 400⟩, []⟩ ∧
        (relative.load longProcess .process : Reading LoadWindows (Option Rat)) {} =
          .error .addition {} :=
  ⟨rfl, rfl, rfl⟩

end HostFiles

end ResourceMetrics
