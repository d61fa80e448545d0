import Mathlib.Tactic.Choose
import ResourceMetrics.Proofs.GroupSwap
import ResourceMetrics.Proofs.HostWindows

/-! What a reading over files is made of. The files alone decide whether it faults, and most
readings go by them alone. A load first makes its measure of the files: the samples that are fed
to the history, or those that are set against a window of the host or of each CPU of a set. Only
then does it turn to the state. -/

namespace ResourceMetrics

variable {σ α β γ : Type}

namespace Reading

/-- A reading that neither looks at its state nor moves it. It faults exactly if `fault` holds. -/
def Stateless (fault : Prop) (r : Reading σ β) : Prop :=
  ∃ e : Except Overflow β, r = ofExcept e ∧ ((∃ overflow, e = .error overflow) ↔ fault)

variable {p q : Prop} {x : Reading σ β}

theorem Stateless.pure (b : β) : Stateless False (pure b : Reading σ β) :=
  ⟨.ok b, rfl, iff_of_false nofun id⟩

theorem Stateless.ofExcept {e : Except Overflow β} (h : (∃ overflow, e = .error overflow) ↔ p) :
    Stateless p (ofExcept e : Reading σ β) :=
  ⟨e, rfl, h⟩

theorem Stateless.congr (hx : Stateless p x) (h : p ↔ q) : Stateless q x := by
  obtain ⟨e, he, hfault⟩ := hx
  exact ⟨e, he, hfault.trans h⟩

theorem Stateless.bind {f : β → Reading σ γ} (hx : Stateless p x)
    (hf : ∀ b, Stateless q (f b)) : Stateless (p ∨ q) (x >>= f) := by
  obtain ⟨e, rfl, hfault⟩ := hx
  cases e with
  | error overflow =>
      have hp : p := hfault.1 ⟨overflow, rfl⟩
      exact ⟨.error overflow, rfl, iff_of_true ⟨overflow, rfl⟩ (Or.inl hp)⟩
  | ok b =>
      have hp : ¬p := fun hp => nomatch hfault.2 hp
      exact (hf b).congr (or_iff_right hp).symm

/-- What never faults adds nothing to what comes before it. -/
theorem Stateless.bind_safe {f : β → Reading σ γ} (hx : Stateless p x)
    (hf : ∀ b, Stateless False (f b)) : Stateless p (x >>= f) :=
  (hx.bind hf).congr (iff_of_eq (or_false p))

theorem Stateless.map (f : β → γ) (hx : Stateless p x) : Stateless p (f <$> x) := by
  obtain ⟨e, rfl, hfault⟩ := hx
  cases e with
  | error overflow =>
      exact ⟨.error overflow, rfl, iff_of_true ⟨overflow, rfl⟩ (hfault.1 ⟨overflow, rfl⟩)⟩
  | ok b => exact ⟨.ok (f b), rfl, iff_of_false nofun fun hp => nomatch hfault.2 hp⟩

theorem Stateless.inSession (hx : Stateless p x) : Stateless p x.inSession := by
  obtain ⟨e, rfl, hfault⟩ := hx
  cases e with
  | error overflow => exact ⟨.error overflow, rfl, hfault⟩
  | ok b => exact ⟨.ok b, rfl, hfault⟩

end Reading

/-- What the load is taken from. -/
inductive Measure
  /-- A usage and a total, to feed to the history. -/
  | history (usage total : Option Counter)
  /-- The sample of the whole host, if there is one. -/
  | host (sample : Option CpuTicks)
  /-- The CPUs of a set, and the samples of CPUs. -/
  | mean (cpus : List CpuIndex) (sample : CpuIndex → Option CpuTicks)

namespace Measure

variable [LoadScale α]

/-- The load of a window since the last sample under its key. It stays open if there is none now. -/
def readWindow (key : LoadKey) : Option CpuTicks → Reading LoadWindows (Option α)
  | some sample => some <$> HostFiles.loadSinceLast key sample
  | none => pure none

theorem readWindow_some (key : LoadKey) (ticks : CpuTicks) (windows : LoadWindows) :
    (readWindow key (some ticks) : Reading LoadWindows (Option α)) windows =
      .ok (some (ticks.loadSince (windows.last key))) (windows.record key ticks) :=
  rfl

/-- Adds the loads of CPUs in order, up to the first that has no sample. -/
def readSum (sample : CpuIndex → Option CpuTicks) :
    α → List CpuIndex → Reading LoadWindows (Option α)
  | sum, [] => pure (some sum)
  | sum, cpu :: rest => do
    match ← readWindow (.cpu cpu) (sample cpu) with
    | some load => readSum sample (sum + load) rest
    | none => pure none

def readMean (cpus : List CpuIndex) (sample : CpuIndex → Option CpuTicks) :
    Reading LoadWindows (Option α) :=
  if cpus.isEmpty then pure none
  else do
    let sum ← readSum sample Load.zero cpus
    pure (sum.map (Load.mean · cpus.length))

/-- The load of a measure within a session. -/
def read : Measure → Reading (Session LoadWindows) (Option α)
  | .history usage total => Monitor.advance usage total
  | .host sample => (readWindow .host sample).inSession
  | .mean cpus sample => (readMean cpus sample).inSession

end Measure

variable [LoadScale α]

/-- A reading of a load that first makes its measure, without the state, and then reads it. It
faults exactly if `fault` holds. -/
def Reading.Measures (fault : Prop) (r : Reading (Session LoadWindows) (Option α)) : Prop :=
  ∃ measure : Reading (Session LoadWindows) Measure,
    measure.Stateless fault ∧ r = measure >>= Measure.read

namespace Reading

variable {p q : Prop}

theorem Measures.congr {r : Reading (Session LoadWindows) (Option α)} (hr : Measures p r)
    (h : p ↔ q) : Measures q r := by
  obtain ⟨measure, hmeasure, hread⟩ := hr
  exact ⟨measure, hmeasure.congr h, hread⟩

theorem Measures.bind {x : Reading (Session LoadWindows) β}
    {f : β → Reading (Session LoadWindows) (Option α)} (hx : Stateless p x)
    (hf : ∀ b, Measures q (f b)) : Measures (p ∨ q) (x >>= f) := by
  choose measure hmeasure hread using hf
  refine ⟨x >>= measure, hx.bind hmeasure, ?_⟩
  rw [bind_assoc]
  exact congrArg (x >>= ·) (funext hread)

/-- A reading that goes by the files alone and then gives way to a measure or not. -/
theorem Measures.of_error {overflow : Overflow} :
    Measures True (throw overflow : Reading (Session LoadWindows) (Option α)) :=
  ⟨throw overflow, ⟨.error overflow, rfl, iff_of_true ⟨overflow, rfl⟩ trivial⟩, rfl⟩

theorem Measures.of_measure (measure : Measure) :
    Measures False (measure.read : Reading (Session LoadWindows) (Option α)) :=
  ⟨pure measure, .pure measure, rfl⟩

end Reading

namespace HostFiles

variable (host : HostFiles) (tree : FileTree)

theorem hostTicks_error_iff :
    (∃ overflow, host.hostTicks tree = .error overflow) ↔ host.TicksOverflow tree := by
  rcases host.hostTicks_cases tree with
    ⟨ticks, hrun, hticks⟩ | ⟨hrun, hover, _⟩ | ⟨fault, hrun, hover⟩
  · rw [hrun]
    exact iff_of_false nofun fun hover => not_showsTicks_of_overflow hover ticks hticks
  · rw [hrun]
    exact iff_of_false nofun hover
  · exact iff_of_true ⟨fault, hrun⟩ hover

theorem sample_error_iff (key : LoadKey) :
    (∃ overflow, host.sample tree key = .error overflow) ↔ host.Overflows tree key := by
  constructor
  · rintro ⟨overflow, herror⟩
    have hfinds := host.sample_finds tree key
    rw [herror] at hfinds
    cases hfinds with
    | fault hover => exact hover
  · exact sample_of_overflows

/-- The sum of the process's own ticks exceeds a counter. -/
def ProcessSumOverflows : Prop :=
  ∃ stat, host.ShowsProcess tree stat ∧
    UInt64.size ≤ stat.userTicks.toNat + stat.systemTicks.toNat

theorem load_eq (key : LoadKey) :
    (host.load tree key : Reading LoadWindows (Option α)) =
      Reading.ofExcept (host.sample tree key) >>= Measure.readWindow key := by
  refine congrArg (Reading.ofExcept (host.sample tree key) >>= ·) (funext fun sample => ?_)
  cases sample with
  | some sample => rfl
  | none => rfl

end HostFiles

end ResourceMetrics
