import ResourceMetrics.Proofs.LinuxFaults
import ResourceMetrics.Proofs.ReportedRange

/-! Getters that are called in any order, each with files of its own. A getter commutes with every
change of what it does not look at: it neither sees the change nor undoes it. From this one law it
follows that calls of other getters can be left out of a run or moved about in it, and that reading
each metric once gives a snapshot in any order. -/

namespace ResourceMetrics

variable {σ α β γ : Type}

namespace Reading

/-- What a reading answers, if it does not fault. -/
def outcome (r : Reading σ β) (s : σ) : Except Overflow β :=
  match r s with
  | .ok b _ => .ok b
  | .error overflow _ => .error overflow

theorem ok_iff {r : Reading σ β} {s s' : σ} {b : β} :
    r s = .ok b s' ↔ r.outcome s = .ok b ∧ r.final s = s' := by
  unfold outcome final
  cases r s with
  | ok b' s'' => simp
  | error overflow s'' => simp

theorem bind_ok_iff {x : Reading σ β} {f : β → Reading σ γ} {s s' : σ} {c : γ} :
    (x >>= f) s = .ok c s' ↔ ∃ b s₁, x s = .ok b s₁ ∧ f b s₁ = .ok c s' := by
  cases h : x s with
  | ok b s₁ =>
      rw [bind_ok h]
      simp
  | error overflow s₁ =>
      rw [bind_error h]
      simp

theorem map_ok_iff {x : Reading σ β} {f : β → γ} {s s' : σ} {c : γ} :
    (f <$> x) s = .ok c s' ↔ ∃ b, x s = .ok b s' ∧ f b = c := by
  cases h : x s with
  | ok b s₁ =>
      rw [map_ok h]
      simp [and_comm]
  | error overflow s₁ =>
      rw [map_error h]
      simp

theorem map_injective {f : β → γ} (hf : Function.Injective f) :
    Function.Injective (f <$> · : Reading σ β → Reading σ γ) := by
  intro x y h
  funext s
  have hs : (f <$> x) s = (f <$> y) s := congrFun h s
  cases hx : x s with
  | ok b s₁ =>
      rw [map_ok hx, eq_comm, map_ok_iff] at hs
      obtain ⟨b', hy, hb⟩ := hs
      rw [hy, hf hb]
  | error overflow s₁ =>
      cases hy : y s with
      | ok b s₂ =>
          rw [map_error hx, map_ok hy] at hs
          cases hs
      | error overflow' s₂ =>
          rw [map_error hx, map_error hy] at hs
          cases hs
          rfl

/-- A result with its state changed. -/
def changed (f : σ → σ) : EStateM.Result Overflow σ β → EStateM.Result Overflow σ β
  | .ok b s => .ok b (f s)
  | .error overflow s => .error overflow (f s)

/-- A reading neither sees nor undoes a change of its state. -/
def Commutes (f : σ → σ) (r : Reading σ β) : Prop := ∀ s, r (f s) = changed f (r s)

variable {f : σ → σ} {x : Reading σ β}

theorem Commutes.outcome (h : Commutes f x) (s : σ) : x.outcome (f s) = x.outcome s := by
  unfold Reading.outcome
  rw [h s]
  cases x s with
  | ok b s' => rfl
  | error overflow s' => rfl

theorem Commutes.final (h : Commutes f x) (s : σ) : x.final (f s) = f (x.final s) := by
  unfold Reading.final
  rw [h s]
  cases x s with
  | ok b s' => rfl
  | error overflow s' => rfl

theorem Commutes.pure (b : β) : Commutes f (pure b : Reading σ β) := fun _ => rfl

theorem Commutes.bind {g : β → Reading σ γ} (hx : Commutes f x) (hg : ∀ b, Commutes f (g b)) :
    Commutes f (x >>= g) := by
  intro s
  have hxs := hx s
  cases h : x s with
  | ok b s' =>
      rw [h] at hxs
      rw [bind_ok h, bind_ok hxs]
      exact hg b s'
  | error overflow s' =>
      rw [h] at hxs
      rw [bind_error h, bind_error hxs]
      rfl

theorem Commutes.map (g : β → γ) (hx : Commutes f x) : Commutes f (g <$> x) := by
  rw [map_eq_pure_bind]
  exact hx.bind fun b => .pure (g b)

theorem Stateless.commutes {fault : Prop} (hx : Stateless fault x) : Commutes f x := by
  obtain ⟨e, rfl, -⟩ := hx
  cases e with
  | ok b => exact fun s => rfl
  | error overflow => exact fun s => rfl

theorem Stateless.final {fault : Prop} (hx : Stateless fault x) (s : σ) : x.final s = s := by
  obtain ⟨e, rfl, -⟩ := hx
  cases e with
  | ok b => rfl
  | error overflow => rfl

/-- The history may be changed along with the source. -/
theorem Commutes.inSession (hx : Commutes f x) (g : LoadHistory → LoadHistory) :
    Commutes (fun s => ⟨g s.history, f s.source⟩) x.inSession := by
  intro s
  have hxs := hx s.source
  cases h : x s.source with
  | ok b source =>
      rw [h] at hxs
      rw [inSession_ok h, inSession_ok hxs]
      rfl
  | error overflow source =>
      rw [h] at hxs
      rw [inSession_error h, inSession_error hxs]
      rfl

end Reading

/-- What a metric looks at as one session has it, and all else as another one has it. -/
def Metric.graft : Metric → Session LoadWindows → Session LoadWindows → Session LoadWindows
  | .load, own, rest => ⟨own.history, { own.source with process := rest.source.process }⟩
  | .processLoad, own, rest => ⟨rest.history, { rest.source with process := own.source.process }⟩
  | _, _, rest => rest

/-- Two sessions hold the same where a metric looks. -/
def Metric.Agrees (metric : Metric) (s t : Session LoadWindows) : Prop := metric.graft s t = t

namespace Metric

variable {j k : Metric} {s t u : Session LoadWindows}

theorem graft_of_not_isLoad (h : ¬k.IsLoad) (own rest : Session LoadWindows) :
    k.graft own rest = rest := by
  cases k with
  | load => exact absurd (Or.inl rfl) h
  | processLoad => exact absurd (Or.inr rfl) h
  | _ => rfl

theorem graft_self (k : Metric) (s : Session LoadWindows) : k.graft s s = s := by
  cases k with
  | _ => rfl

theorem graft_graft (k : Metric) (s t u : Session LoadWindows) :
    k.graft s (k.graft t u) = k.graft s u := by
  cases k with
  | _ => rfl

theorem graft_graft_left (k : Metric) (s t u : Session LoadWindows) :
    k.graft (k.graft s t) u = k.graft s u := by
  cases k with
  | _ => rfl

/-- What one metric looks at is not what another one looks at. -/
theorem graft_graft_of_ne (h : j ≠ k) (s t u : Session LoadWindows) :
    k.graft (j.graft s t) u = k.graft t u := by
  cases j with
  | load =>
      cases k with
      | load => exact absurd rfl h
      | _ => rfl
  | processLoad =>
      cases k with
      | processLoad => exact absurd rfl h
      | _ => rfl
  | _ => rfl

theorem Agrees.refl (k : Metric) (s : Session LoadWindows) : k.Agrees s s := k.graft_self s

/-- Two sessions agree if both agree with a third. -/
theorem Agrees.of_common (hs : k.Agrees s u) (ht : k.Agrees t u) : k.Agrees s t := by
  calc k.graft s t
      = k.graft (k.graft s u) t := (k.graft_graft_left s u t).symm
    _ = k.graft (k.graft t u) t := by rw [hs, ht]
    _ = t := by rw [graft_graft_left, graft_self]

theorem agrees_load_iff : Metric.load.Agrees s t ↔
    s.history = t.history ∧ s.source.host = t.source.host ∧ s.source.cpus = t.source.cpus := by
  obtain ⟨history, host, cpus, process⟩ := s
  obtain ⟨history', host', cpus', process'⟩ := t
  simp [Agrees, graft]

theorem agrees_processLoad_iff :
    Metric.processLoad.Agrees s t ↔ s.source.process = t.source.process := by
  obtain ⟨history, host, cpus, process⟩ := s
  obtain ⟨history', host', cpus', process'⟩ := t
  simp [Agrees, graft]

/-- Nothing of a session is out of sight of both loads. -/
theorem eq_of_agrees (hload : Metric.load.Agrees s t) (hprocess : Metric.processLoad.Agrees s t) :
    s = t := by
  obtain ⟨history, host, cpus, process⟩ := s
  obtain ⟨history', host', cpus', process'⟩ := t
  obtain ⟨hhistory, hhost, hcpus⟩ := agrees_load_iff.1 hload
  have hprocess' := agrees_processLoad_iff.1 hprocess
  simp_all

end Metric

section Getter

variable [LoadScale α]

theorem Measure.readWindow_commutes {key : LoadKey} (h : key ≠ .process) (process : CpuTicks)
    (sample : Option CpuTicks) :
    (readWindow key sample : Reading LoadWindows (Option α)).Commutes ({ · with process }) := by
  cases sample with
  | none => exact .pure none
  | some sample =>
      cases key with
      | process => exact absurd rfl h
      | host => exact fun windows => rfl
      | cpu index => exact fun windows => rfl

theorem Measure.readSum_commutes (process : CpuTicks) (sample : CpuIndex → Option CpuTicks)
    (cpus : List CpuIndex) : ∀ sum : α,
      (readSum sample sum cpus : Reading LoadWindows (Option α)).Commutes ({ · with process }) := by
  induction cpus with
  | nil => exact fun sum => .pure _
  | cons cpu rest ih =>
      intro sum
      have hkey : LoadKey.cpu cpu ≠ .process := nofun
      refine (readWindow_commutes hkey process (sample cpu)).bind fun load => ?_
      cases load with
      | none => exact .pure _
      | some load => exact ih (sum + load)

theorem Measure.readMean_commutes (process : CpuTicks) (cpus : List CpuIndex)
    (sample : CpuIndex → Option CpuTicks) :
    (readMean cpus sample : Reading LoadWindows (Option α)).Commutes ({ · with process }) := by
  unfold readMean
  split
  · exact .pure _
  · exact (readSum_commutes process sample cpus Load.zero).bind fun sum => .pure _

theorem Measure.read_commutes (measure : Measure) (rest : Session LoadWindows) :
    (measure.read : Reading (Session LoadWindows) (Option α)).Commutes
      (Metric.load.graft · rest) := by
  cases measure with
  | history usage total => exact fun s => rfl
  | host sample =>
      have hkey : LoadKey.host ≠ .process := nofun
      exact (readWindow_commutes hkey rest.source.process sample).inSession id
  | mean cpus sample => exact (readMean_commutes rest.source.process cpus sample).inSession id

variable (host : HostFiles) (group : Option Path) (tree : FileTree)

/-- A getter commutes with all changes of what it does not look at. -/
theorem Monitor.read_commutes (metric : Metric) (rest : Session LoadWindows) :
    ((linuxMonitor host group tree : Monitor LoadWindows α).read metric).Commutes
      (metric.graft · rest) := by
  by_cases hload : metric.IsLoad
  · rcases hload with rfl | rfl
    · obtain ⟨measure, hmeasure, hread⟩ := load_measures (α := α) host group tree
      refine .map _ (.map _ ?_)
      rw [hread]
      exact hmeasure.commutes.bind fun measure => measure.read_commutes rest
    · refine .map _ (.map _ ?_)
      rw [processLoad_eq]
      cases host.sample tree .process with
      | error overflow => exact fun s => rfl
      | ok sample =>
          cases sample with
          | none => exact fun s => rfl
          | some sample => exact fun s => rfl
  · exact (read_stateless host group tree hload).commutes

end Getter

/-- A getter that is called, with the files as they are then. -/
structure GetterCall where
  tree : FileTree
  metric : Metric

namespace GetterCall

variable (α) [LoadScale α] (host : HostFiles) (group : Option Path)

def reading (call : GetterCall) : Reading (Session LoadWindows) (MetricValue α) :=
  (linuxMonitor host group call.tree).read call.metric

/-- The session that a run of calls leaves, whether they answer or fault. -/
def sessionAfter : List GetterCall → Session LoadWindows → Session LoadWindows
  | [], s => s
  | call :: rest, s => sessionAfter rest ((call.reading α host group).final s)

/-- What the calls of one getter answer in a run. -/
def answers (k : Metric) :
    List GetterCall → Session LoadWindows → List (Except Overflow (MetricValue α))
  | [], _ => []
  | call :: rest, s =>
    let others := answers k rest ((call.reading α host group).final s)
    if call.metric = k then (call.reading α host group).outcome s :: others else others

variable {k : Metric} {s t : Session LoadWindows}

theorem final_graft (call : GetterCall) (s t : Session LoadWindows) :
    (call.reading α host group).final (call.metric.graft s t) =
      call.metric.graft ((call.reading α host group).final s) t :=
  (Monitor.read_commutes host group call.tree call.metric t).final s

theorem outcome_graft (call : GetterCall) (s t : Session LoadWindows) :
    (call.reading α host group).outcome (call.metric.graft s t) =
      (call.reading α host group).outcome s :=
  (Monitor.read_commutes host group call.tree call.metric t).outcome s

/-- A call changes only what its getter looks at. -/
theorem final_eq_graft (call : GetterCall) (s : Session LoadWindows) :
    (call.reading α host group).final s =
      call.metric.graft ((call.reading α host group).final s) s := by
  rw [← final_graft α host group call, Metric.graft_self]

theorem outcome_of_agrees (call : GetterCall) (h : call.metric.Agrees s t) :
    (call.reading α host group).outcome s = (call.reading α host group).outcome t := by
  calc (call.reading α host group).outcome s
      = (call.reading α host group).outcome (call.metric.graft s t) :=
        (outcome_graft α host group call s t).symm
    _ = (call.reading α host group).outcome t := by rw [h]

/-- A call of the getter itself keeps two sessions in agreement. -/
theorem agrees_final_own (call : GetterCall) (h : call.metric.Agrees s t) :
    call.metric.Agrees ((call.reading α host group).final s)
      ((call.reading α host group).final t) := by
  have hfinal : (call.reading α host group).final t =
      call.metric.graft ((call.reading α host group).final s) t := by
    rw [← final_graft α host group call, h]
  unfold Metric.Agrees
  rw [hfinal, Metric.graft_graft]

/-- A call of another getter goes unnoticed. -/
theorem agrees_final_other (call : GetterCall) (hk : call.metric ≠ k) (h : k.Agrees s t) :
    k.Agrees ((call.reading α host group).final s) t := by
  unfold Metric.Agrees
  rw [final_eq_graft α host group call, Metric.graft_graft_of_ne hk]
  exact h

/-- The calls of one getter answer as they do without all others, and leave the same for it. -/
theorem run_of_agrees (k : Metric) (run : List GetterCall) (h : k.Agrees s t) :
    answers α host group k run s = answers α host group k (run.filter (·.metric = k)) t ∧
      k.Agrees (sessionAfter α host group run s)
        (sessionAfter α host group (run.filter (·.metric = k)) t) := by
  induction run generalizing s t with
  | nil => exact ⟨rfl, h⟩
  | cons call rest ih =>
      by_cases hk : call.metric = k
      · subst hk
        obtain ⟨hanswers, hsession⟩ := ih (agrees_final_own α host group call h)
        rw [List.filter_cons_of_pos (by simp)]
        refine ⟨?_, hsession⟩
        simp only [answers, if_true]
        rw [outcome_of_agrees α host group call h, hanswers]
      · obtain ⟨hanswers, hsession⟩ := ih (agrees_final_other α host group call hk h)
        rw [List.filter_cons_of_neg (by simpa using hk)]
        refine ⟨?_, hsession⟩
        simp only [answers, if_neg hk]
        exact hanswers

theorem answers_eq_of_filter_eq {run run' : List GetterCall}
    (h : run.filter (·.metric = k) = run'.filter (·.metric = k)) (s : Session LoadWindows) :
    answers α host group k run s = answers α host group k run' s := by
  rw [(run_of_agrees α host group k run (.refl k s)).1,
    (run_of_agrees α host group k run' (.refl k s)).1, h]

end GetterCall

/-- The value of a metric in a snapshot. -/
def Snapshot.value (snapshot : Snapshot α) : Metric → MetricValue α
  | .containerPresent => .flag snapshot.containerPresent
  | .availableProcessors => .processors snapshot.availableProcessors
  | .totalSwap => .amount snapshot.totalSwap
  | .freeSwap => .amount snapshot.freeSwap
  | .totalMemory => .amount snapshot.totalMemory
  | .freeMemory => .amount snapshot.freeMemory
  | .load => .load snapshot.load
  | .processLoad => .load snapshot.processLoad
  | .processTime => .amount snapshot.processTime
  | .committedMemory => .amount snapshot.committedMemory
  | .openDescriptors => .amount snapshot.openDescriptors
  | .maxDescriptors => .amount snapshot.maxDescriptors

theorem Snapshot.value_injective : Function.Injective (Snapshot.value (α := α)) := by
  intro first second h
  have hvalue := congrFun h
  cases first
  cases second
  rw [Snapshot.mk.injEq]
  exact ⟨MetricValue.flag.inj (hvalue .containerPresent),
    MetricValue.processors.inj (hvalue .availableProcessors),
    MetricValue.amount.inj (hvalue .totalSwap), MetricValue.amount.inj (hvalue .freeSwap),
    MetricValue.amount.inj (hvalue .totalMemory), MetricValue.amount.inj (hvalue .freeMemory),
    MetricValue.load.inj (hvalue .load), MetricValue.load.inj (hvalue .processLoad),
    MetricValue.amount.inj (hvalue .processTime), MetricValue.amount.inj (hvalue .committedMemory),
    MetricValue.amount.inj (hvalue .openDescriptors),
    MetricValue.amount.inj (hvalue .maxDescriptors)⟩

theorem Metric.mem_all (metric : Metric) : metric ∈ Metric.all := by
  cases metric <;> decide

theorem Metric.nodup_all : Metric.all.Nodup := by decide

section Snapshot

variable [LoadScale α]

theorem Monitor.map_value_snapshot (m : Monitor σ α) :
    (fun snapshot => Metric.all.map snapshot.value) <$> m.snapshot = Metric.all.mapM m.read := by
  simp only [Metric.all, List.map_cons, List.map_nil, List.mapM_cons, List.mapM_nil, Monitor.read,
    Monitor.snapshot, Snapshot.value, map_eq_pure_bind, bind_assoc, pure_bind]

/-- All metrics can be read in the order of a snapshot exactly if it can be taken. -/
theorem Monitor.mapM_read_all_iff {m : Monitor σ α} {s s' : Session σ}
    {values : List (MetricValue α)} : Metric.all.mapM m.read s = .ok values s' ↔
      ∃ snapshot, m.snapshot s = .ok snapshot s' ∧ Metric.all.map snapshot.value = values := by
  rw [← m.map_value_snapshot, Reading.map_ok_iff]

omit [LoadScale α] in
theorem map_all_inj {f g : Metric → MetricValue α} (h : Metric.all.map f = Metric.all.map g) :
    f = g :=
  funext fun k => List.map_inj_left.1 h k k.mem_all

variable {host : HostFiles} {group : Option Path} {tree : FileTree} {order : List Metric}
  {s s' : Session LoadWindows}

open GetterCall

/-- The calls of getters on one tree. -/
def callsOn (tree : FileTree) (order : List Metric) : List GetterCall := order.map (⟨tree, ·⟩)

/-- What a getter answers at first it answers after others too. -/
theorem outcome_after_other {j k : Metric} (h : j ≠ k) (s : Session LoadWindows) :
    (GetterCall.reading α host group ⟨tree, k⟩).outcome
        ((GetterCall.reading α host group ⟨tree, j⟩).final s) =
      (GetterCall.reading α host group ⟨tree, k⟩).outcome s :=
  outcome_of_agrees α host group ⟨tree, k⟩
    (agrees_final_other α host group ⟨tree, j⟩ h (.refl k s))

/-- Getters that all answer by themselves answer so one after the other, in any order. -/
theorem mapM_read_of_outcomes {value : Metric → MetricValue α} (hnodup : order.Nodup)
    (h : ∀ k ∈ order, (GetterCall.reading α host group ⟨tree, k⟩).outcome s = .ok (value k)) :
    order.mapM (linuxMonitor host group tree).read s =
      .ok (order.map value) (sessionAfter α host group (callsOn tree order) s) := by
  induction order generalizing s with
  | nil => rfl
  | cons k rest ih =>
      obtain ⟨hk, hrest⟩ := List.nodup_cons.1 hnodup
      have hrun : (linuxMonitor host group tree).read k s = .ok (value k) _ :=
        Reading.ok_iff.2 ⟨h k List.mem_cons_self, rfl⟩
      rw [List.mapM_cons, Reading.bind_ok hrun, Reading.bind_ok (ih hrest fun j hj => ?_)]
      · rfl
      · have hne : k ≠ j := fun hkj => hk (hkj ▸ hj)
        exact (outcome_after_other hne s).trans (h j (List.mem_cons_of_mem k hj))

theorem outcomes_of_mapM_read {values : List (MetricValue α)} (hnodup : order.Nodup)
    (h : order.mapM (linuxMonitor host group tree).read s = .ok values s') :
    ∃ value : Metric → MetricValue α,
      ∀ k ∈ order, (GetterCall.reading α host group ⟨tree, k⟩).outcome s = .ok (value k) := by
  induction order generalizing s s' values with
  | nil => exact ⟨fun _ => .flag true, nofun⟩
  | cons k rest ih =>
      obtain ⟨hk, hrest⟩ := List.nodup_cons.1 hnodup
      rw [List.mapM_cons] at h
      obtain ⟨v, s₁, hread, h⟩ := Reading.bind_ok_iff.1 h
      obtain ⟨vs, s₂, hvalues, -⟩ := Reading.bind_ok_iff.1 h
      obtain ⟨value, hvalue⟩ := ih hrest hvalues
      obtain ⟨hfirst, rfl⟩ := Reading.ok_iff.1 hread
      refine ⟨Function.update value k v, fun j hj => ?_⟩
      by_cases hjk : j = k
      · rw [hjk, Function.update_self]
        exact hfirst
      · have hmem := (List.mem_cons.1 hj).resolve_left hjk
        rw [Function.update_of_ne hjk, ← hvalue j hmem]
        exact (outcome_after_other (Ne.symm hjk) s).symm

/-- A snapshot holds what the getters answer at first. -/
theorem outcomes_of_snapshot {snapshot : Snapshot α}
    (h : (linuxMonitor host group tree).snapshot s = .ok snapshot s') :
    (∀ k, (GetterCall.reading α host group ⟨tree, k⟩).outcome s = .ok (snapshot.value k)) ∧
      s' = sessionAfter α host group (callsOn tree Metric.all) s := by
  have hread := Monitor.mapM_read_all_iff.2 ⟨snapshot, h, rfl⟩
  obtain ⟨value, hvalue⟩ := outcomes_of_mapM_read Metric.nodup_all hread
  have hall := mapM_read_of_outcomes Metric.nodup_all hvalue
  rw [hread] at hall
  injection hall with hvalues hs'
  rw [map_all_inj hvalues]
  exact ⟨fun k => hvalue k k.mem_all, hs'⟩

/-- Where all getters answer, a snapshot can be taken. -/
theorem snapshot_of_outcomes {value : Metric → MetricValue α}
    (h : ∀ k, (GetterCall.reading α host group ⟨tree, k⟩).outcome s = .ok (value k)) :
    ∃ snapshot, (linuxMonitor host group tree).snapshot s =
        .ok snapshot (sessionAfter α host group (callsOn tree Metric.all) s) ∧
      snapshot.value = value := by
  have hall := mapM_read_of_outcomes Metric.nodup_all fun k _ => h k
  obtain ⟨snapshot, hsnapshot, hvalues⟩ := Monitor.mapM_read_all_iff.1 hall
  exact ⟨snapshot, hsnapshot, map_all_inj hvalues⟩

/-- The session that getters leave does not depend on their order. -/
theorem sessionAfter_perm {order' : List Metric} (h : order.Perm order')
    (s : Session LoadWindows) : sessionAfter α host group (callsOn tree order) s =
      sessionAfter α host group (callsOn tree order') s := by
  have hagrees (k : Metric) : k.Agrees (sessionAfter α host group (callsOn tree order) s)
      (sessionAfter α host group (callsOn tree order') s) := by
    have hfilter : (callsOn tree order).filter (·.metric = k) =
        (callsOn tree order').filter (·.metric = k) := by
      have hcount : order.filter (· = k) = order'.filter (· = k) := by
        rw [List.filter_eq, List.filter_eq, h.count_eq]
      unfold callsOn
      rw [List.filter_map, List.filter_map]
      exact congrArg _ hcount
    have hpurged := (run_of_agrees α host group k (callsOn tree order) (.refl k s)).2
    have hpurged' := (run_of_agrees α host group k (callsOn tree order') (.refl k s)).2
    rw [hfilter] at hpurged
    exact hpurged.of_common hpurged'
  exact Metric.eq_of_agrees (hagrees .load) (hagrees .processLoad)

/-- Any order of all metrics gives what a snapshot gives. -/
theorem snapshot_of_order (horder : order.Perm Metric.all) {values : List (MetricValue α)} :
    order.mapM (linuxMonitor host group tree).read s = .ok values s' ↔
      ∃ snapshot, (linuxMonitor host group tree).snapshot s = .ok snapshot s' ∧
        values = order.map snapshot.value := by
  have hnodup : order.Nodup := horder.nodup_iff.2 Metric.nodup_all
  have hsession : sessionAfter α host group (callsOn tree order) s =
      sessionAfter α host group (callsOn tree Metric.all) s := sessionAfter_perm horder s
  constructor
  · intro h
    obtain ⟨value, hvalue⟩ := outcomes_of_mapM_read hnodup h
    have hrun := mapM_read_of_outcomes hnodup hvalue
    obtain ⟨snapshot, hsnapshot, hall⟩ :=
      snapshot_of_outcomes fun k => hvalue k (horder.mem_iff.2 k.mem_all)
    rw [h] at hrun
    injection hrun with hvalues hs'
    rw [← hsession, ← hs'] at hsnapshot
    exact ⟨snapshot, hsnapshot, by rw [hvalues, hall]⟩
  · rintro ⟨snapshot, hsnapshot, rfl⟩
    obtain ⟨hvalue, rfl⟩ := outcomes_of_snapshot hsnapshot
    rw [← hsession]
    exact mapM_read_of_outcomes hnodup fun k _ => hvalue k

end Snapshot

/-- The getters of a monitor over files do not interfere with each other. -/
structure GettersIndependent (α : Type) [LoadScale α] (host : HostFiles) (group : Option Path) :
    Prop where
  /-- Calls of other getters do not matter to what those of one getter answer. -/
  answers : ∀ {k : Metric} {run run' : List GetterCall},
    run.filter (·.metric = k) = run'.filter (·.metric = k) → ∀ s : Session LoadWindows,
      GetterCall.answers α host group k run s = GetterCall.answers α host group k run' s
  unmoved : ∀ (call : GetterCall), call.metric ≠ .load → call.metric ≠ .processLoad →
    ∀ s, (call.reading α host group).final s = s
  movedByLoad : ∀ (tree : FileTree) (s : Session LoadWindows),
    ((GetterCall.reading α host group ⟨tree, .load⟩).final s).source.process = s.source.process
  movedByProcessLoad : ∀ (tree : FileTree) (s : Session LoadWindows) (s' : Session LoadWindows),
    (GetterCall.reading α host group ⟨tree, .processLoad⟩).final s = s' →
      s'.history = s.history ∧ s'.source.host = s.source.host ∧ s'.source.cpus = s.source.cpus
  readByLoad : ∀ (tree : FileTree) {s t : Session LoadWindows}, s.history = t.history →
    s.source.host = t.source.host → s.source.cpus = t.source.cpus →
      (GetterCall.reading α host group ⟨tree, .load⟩).outcome s =
        (GetterCall.reading α host group ⟨tree, .load⟩).outcome t
  readByProcessLoad : ∀ (tree : FileTree) {s t : Session LoadWindows},
    s.source.process = t.source.process →
      (GetterCall.reading α host group ⟨tree, .processLoad⟩).outcome s =
        (GetterCall.reading α host group ⟨tree, .processLoad⟩).outcome t
  readByOthers : ∀ (call : GetterCall), call.metric ≠ .load → call.metric ≠ .processLoad →
    ∀ s t, (call.reading α host group).outcome s = (call.reading α host group).outcome t
  /-- Where no getter faults, all of them give in any order what a snapshot gives. -/
  snapshot : ∀ {order : List Metric}, order.Perm Metric.all →
    ∀ (tree : FileTree) (s s' : Session LoadWindows) (values : List (MetricValue α)),
      order.mapM (linuxMonitor host group tree).read s = .ok values s' ↔
        ∃ snapshot, (linuxMonitor host group tree).snapshot s = .ok snapshot s' ∧
          values = order.map snapshot.value

theorem gettersIndependent [LoadScale α] (host : HostFiles) (group : Option Path) :
    GettersIndependent α host group where
  answers h := GetterCall.answers_eq_of_filter_eq α host group h
  unmoved call hload hprocess := by
    have hstateless : ¬call.metric.IsLoad := by
      rintro (h | h)
      · exact hload h
      · exact hprocess h
    exact (Monitor.read_stateless host group call.tree hstateless).final
  movedByLoad tree s := by
    rw [GetterCall.final_eq_graft]
    rfl
  movedByProcessLoad tree s s' h := by
    rw [← h, GetterCall.final_eq_graft]
    exact ⟨rfl, rfl, rfl⟩
  readByLoad tree s t hhistory hhost hcpus :=
    GetterCall.outcome_of_agrees α host group ⟨tree, .load⟩
      (Metric.agrees_load_iff.2 ⟨hhistory, hhost, hcpus⟩)
  readByProcessLoad tree s t hprocess :=
    GetterCall.outcome_of_agrees α host group ⟨tree, .processLoad⟩
      (Metric.agrees_processLoad_iff.2 hprocess)
  readByOthers call hload hprocess s t := by
    apply GetterCall.outcome_of_agrees α host group call
    apply Metric.graft_of_not_isLoad
    rintro (h | h)
    · exact hload h
    · exact hprocess h
  snapshot horder tree s s' values := snapshot_of_order horder

/-- The load of the host over two trees, with calls of other getters around it or without them. -/
theorem gettersIndependent_interleaved :
    GetterCall.answers Rat HostFiles.relative none .load
        [⟨statTree "cpu  9 0 0 9", .processLoad⟩, ⟨statTree "cpu  300 0 0 100", .load⟩,
          ⟨statTree "intr", .openDescriptors⟩, ⟨statTree "cpu  400 0 0 300", .load⟩]
        { source := {} } =
      [.ok (.load (3 / 4)), .ok (.load (1 / 3))] := by
  have halone : GetterCall.answers Rat HostFiles.relative none .load
        [⟨statTree "cpu  9 0 0 9", .processLoad⟩, ⟨statTree "cpu  300 0 0 100", .load⟩,
          ⟨statTree "intr", .openDescriptors⟩, ⟨statTree "cpu  400 0 0 300", .load⟩]
        { source := {} } =
      GetterCall.answers Rat HostFiles.relative none .load
        [⟨statTree "cpu  300 0 0 100", .load⟩, ⟨statTree "cpu  400 0 0 300", .load⟩]
        { source := {} } :=
    (gettersIndependent HostFiles.relative none).answers rfl _
  rw [halone]
  decide +kernel

end ResourceMetrics
