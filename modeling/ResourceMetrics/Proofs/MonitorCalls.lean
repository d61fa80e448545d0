import ResourceMetrics.Proofs.CallFaults

/-! Calls of a monitor from outside: a getter, or a snapshot. A call answers the values of its
metrics, read one after the other. It faults only if a source does, for a monitor adds no fault of
its own. -/

namespace ResourceMetrics

variable {σ α β γ : Type}

namespace Reading

theorem outcome_map (f : β → γ) (r : Reading σ β) (s : σ) :
    outcome (f <$> r) s = (r.outcome s).map f := by
  unfold outcome
  cases h : r s with
  | ok b s' =>
      rw [map_ok h]
      rfl
  | error overflow s' =>
      rw [map_error h]
      rfl

theorem outcome_inSession (r : Reading σ β) (s : Session σ) :
    r.inSession.outcome s = r.outcome s.source := by
  unfold outcome
  cases h : r s.source with
  | ok b source => rw [inSession_ok h]
  | error overflow source => rw [inSession_error h]

theorem outcome_of_ok {r : Reading σ β} {s s' : σ} {b : β} (h : r s = .ok b s') :
    r.outcome s = .ok b := by
  simp only [outcome, h]

theorem inSession_map (f : β → γ) (r : Reading σ β) :
    inSession (f <$> r) = f <$> r.inSession := by
  funext s
  cases h : r s.source with
  | ok b source => rw [inSession_ok (map_ok h), map_ok (inSession_ok h)]
  | error overflow source => rw [inSession_error (map_error h), map_error (inSession_error h)]

theorem inSession_bind (r : Reading σ β) (f : β → Reading σ γ) :
    (r >>= f).inSession = r.inSession >>= fun b => (f b).inSession := by
  funext s
  cases h : r s.source with
  | ok b source =>
      rw [bind_ok (inSession_ok h)]
      unfold inSession
      rw [bind_ok h]
  | error overflow source =>
      rw [bind_error (inSession_error h), inSession_error (bind_error h)]

theorem inSession_mapM (f : γ → Reading σ β) (xs : List γ) :
    (xs.mapM f).inSession = xs.mapM fun x => (f x).inSession := by
  induction xs with
  | nil => rfl
  | cons x rest ih =>
      simp only [List.mapM_cons, inSession_bind, ih]
      rfl

theorem Gives.of_map {fault : Prop} {f : β → γ} {r : Reading σ β} {P : γ → Prop}
    (h : Gives fault (f <$> r) P) : Gives fault r fun b => P (f b) := by
  intro s hs
  have hmap := h s hs
  cases hr : r s with
  | ok b s' =>
      rw [map_ok hr] at hmap
      exact hmap
  | error overflow s' =>
      rw [map_error hr] at hmap
      exact hmap

/-- What readings answer one after the other, also after one that faults. -/
def outcomes : List (Reading σ β) → σ → List (Except Overflow β)
  | [], _ => []
  | r :: rest, s => r.outcome s :: outcomes rest (r.final s)

/-- What readings answer after a first one, or the fault that this one ends in. -/
def outcomesAfter (first : Reading σ γ) (run : List (Reading σ β)) (s : σ) :
    Except Overflow (List (Except Overflow β)) :=
  match first s with
  | .ok _ s' => .ok (outcomes run s')
  | .error overflow _ => .error overflow

theorem outcomesAfter_map {δ : Type} (f : γ → δ) (first : Reading σ γ) (run : List (Reading σ β))
    (s : σ) : outcomesAfter (f <$> first) run s = outcomesAfter first run s := by
  unfold outcomesAfter
  cases h : first s with
  | ok c s' => rw [map_ok h]
  | error overflow s' => rw [map_error h]

end Reading

/-- What can be asked of a monitor. -/
inductive Call
  | get (metric : Metric)
  | snapshot
  deriving Repr, DecidableEq

/-- What a call answers. -/
inductive Answer (α : Type)
  | value (v : MetricValue α)
  | snapshot (s : Snapshot α)
  deriving Repr, DecidableEq

/-- The metrics that a call reads, in order. -/
def Call.metrics : Call → List Metric
  | .get k => [k]
  | .snapshot => Metric.all

/-- The values of the metrics in an answer. -/
def Answer.values : Answer α → List (MetricValue α)
  | .value v => [v]
  | .snapshot all => Metric.all.map all.value

variable [LoadScale α]

def Monitor.call (m : Monitor σ α) : Call → Reading (Session σ) (Answer α)
  | .get k => .value <$> m.read k
  | .snapshot => .snapshot <$> m.snapshot

/-- A call reads its metrics and no others. -/
theorem Monitor.values_call (m : Monitor σ α) (call : Call) :
    Answer.values <$> m.call call = call.metrics.mapM m.read := by
  cases call with
  | get k => simp only [Monitor.call, Call.metrics, Answer.values, map_eq_pure_bind, bind_assoc,
      pure_bind, List.mapM_cons, List.mapM_nil]
  | snapshot =>
      rw [Call.metrics, ← m.map_value_snapshot]
      simp only [Monitor.call, Answer.values, map_eq_pure_bind, bind_assoc, pure_bind]

omit [LoadScale α] in
theorem Answer.values_injective : Function.Injective (Answer.values (α := α)) := by
  have hlength {v : MetricValue α} {all : Snapshot α} : [v] ≠ Metric.all.map all.value :=
    fun h => absurd (congrArg List.length h) (by simp [Metric.all])
  intro first second h
  cases first with
  | value v =>
      cases second with
      | value w => rw [List.singleton_inj.1 h]
      | snapshot all => exact absurd h hlength
  | snapshot all =>
      cases second with
      | value w => exact absurd h.symm hlength
      | snapshot all' => rw [Snapshot.value_injective (map_all_inj h)]

/-- Monitors that read each metric alike answer every call alike. -/
theorem Monitor.call_congr {m m' : Monitor σ α} (h : m.read = m'.read) (c : Call) :
    m.call c = m'.call c := by
  apply Reading.map_injective Answer.values_injective
  calc Answer.values <$> m.call c
      = c.metrics.mapM m.read := m.values_call c
    _ = c.metrics.mapM m'.read := by rw [h]
    _ = Answer.values <$> m'.call c := (m'.values_call c).symm

omit [LoadScale α] in
theorem Returns.map {fault : Prop} {r : Reading σ β} (f : β → γ) (h : Returns fault r) :
    Returns fault (f <$> r) :=
  Reading.Gives.map h fun _ _ => trivial

namespace Monitor.Return

variable {fault : Prop} {m : Monitor σ α} (h : m.Return fault)

include h

/-- A getter adds no fault to those of the sources. -/
theorem read (metric : Metric) : Returns fault (m.read metric) := by
  have hamount {r : Reading σ (Option Counter)} (hr : Returns fault r) :
      Returns fault (MetricValue.amount <$> Monitor.amount r : Reading _ (MetricValue α)) :=
    .map _ (.map _ (.inSession hr))
  have hload {r : Reading (Session σ) (Option α)} (hr : Returns fault r) :
      Returns fault (MetricValue.load <$> reportLoad <$> r) :=
    .map _ (.map _ hr)
  cases metric with
  | containerPresent => exact .pure trivial
  | availableProcessors => exact .map _ (.inSession h.availableProcessors.returns)
  | totalSwap => exact hamount h.totalSwap
  | freeSwap => exact hamount h.freeSwap
  | totalMemory => exact hamount h.totalMemory
  | freeMemory => exact hamount h.freeMemory
  | load => exact hload (h.load_gives loadInvariant_true h.host.load h.host.cpuLoad)
  | processLoad => exact hload (.inSession h.host.processLoad)
  | processTime => exact hamount h.host.processTime
  | committedMemory => exact hamount (h.host.amounts m.host.committedMemory (by simp))
  | openDescriptors => exact hamount (h.host.amounts m.host.openDescriptors (by simp))
  | maxDescriptors => exact hamount (h.host.amounts m.host.maxDescriptors (by simp))

theorem mapM_read (metrics : List Metric) : Returns fault (metrics.mapM m.read) := by
  induction metrics with
  | nil => exact .pure trivial
  | cons metric rest ih =>
      rw [List.mapM_cons]
      apply Reading.Gives.bind (h.read metric)
      intro v _
      apply Reading.Gives.bind ih
      intro vs _
      exact .pure trivial

/-- A call returns if the sources do. -/
theorem call (c : Call) : Returns fault (m.call c) :=
  .of_map (m.values_call c ▸ h.mapM_read c.metrics)

end Monitor.Return

end ResourceMetrics
