import ResourceMetrics.Proofs.IdleSnapshot
import ResourceMetrics.Proofs.LoadRun
import ResourceMetrics.Proofs.SnapshotText

/-! Requests and direct calls in one run. To a monitor a request that asks for the metrics is a
snapshot, whether or not their text is wanted, and one that is refused is nothing at all. So a run
leaves the session that its calls leave by themselves, and the loads in an answer are measured from
the latest use before it that read them. -/

namespace ResourceMetrics

variable {σ : Type}

/-- A request for the metrics without their text. -/
structure Request.AsksForHead (request : Request) : Prop where
  path : Request.path request.target = HttpApi.metricsPath
  method : request.method = "HEAD".toList

/-- A request that is answered by a snapshot. -/
def Request.Served (request : Request) : Prop := request.AsksForMetrics ∨ request.AsksForHead

theorem Request.served_iff {request : Request} : request.Served ↔
    Request.path request.target = HttpApi.metricsPath ∧
      (request.method = "GET".toList ∨ request.method = "HEAD".toList) := by
  constructor
  · rintro (h | h)
    · exact ⟨h.path, Or.inl h.method⟩
    · exact ⟨h.path, Or.inr h.method⟩
  · rintro ⟨hpath, hmethod | hmethod⟩
    · exact Or.inl ⟨hpath, hmethod⟩
    · exact Or.inr ⟨hpath, hmethod⟩

instance : DecidablePred Request.Served := fun _ => decidable_of_iff _ Request.served_iff.symm

/-- A target that starts at the root has the path of the metrics if nothing follows it, or a query
or fragment does. -/
theorem Request.path_eq_metricsPath_iff {target : Text} (h : target.head? = some '/') :
    Request.path target = HttpApi.metricsPath ↔
      ∃ rest, target = HttpApi.metricsPath ++ rest ∧ ∀ c ∈ rest.head?, endsPath c = true := by
  have hclear : ∀ c ∈ HttpApi.metricsPath, (!endsPath c) = true :=
    List.all_eq_true.1 (by decide)
  rw [Request.path, if_pos h]
  constructor
  · intro hpath
    refine ⟨target.dropWhile (!endsPath ·), ?_, ?_⟩
    · rw [← hpath, List.takeWhile_append_dropWhile]
    · intro c hc
      have hstop := List.head?_dropWhile_not (!endsPath ·) target
      rw [Option.mem_def.1 hc] at hstop
      simpa using hstop
  · rintro ⟨rest, rfl, hrest⟩
    rw [List.takeWhile_append_of_pos hclear]
    cases rest with
    | nil => rfl
    | cons c rest => simp [hrest c rfl]

namespace HttpApi

variable {m : Monitor σ Binary64} {request : Request}

/-- The answer to a request for the metrics, by what the snapshot gives. -/
def ofOutcome : Except Overflow (Snapshot Binary64) → Response
  | .ok snapshot => ofSnapshot snapshot
  | .error _ => collectionFailed

theorem collect_eq (m : Monitor σ Binary64) (s : Session σ) :
    collect m s = (ofOutcome (m.snapshot.outcome s), m.snapshot.final s) := by
  unfold collect Reading.outcome Reading.final
  cases m.snapshot s with
  | ok snapshot s' => rfl
  | error overflow s' => rfl

theorem respond_of_get (h : request.AsksForMetrics) (s : Session σ) :
    respond m request s = (ofOutcome (m.snapshot.outcome s), m.snapshot.final s) := by
  unfold respond
  rw [h.path, h.method, collect_eq]
  rfl

theorem respond_of_head (h : request.AsksForHead) (s : Session σ) : respond m request s =
    (withoutBody (ofOutcome (m.snapshot.outcome s)), m.snapshot.final s) := by
  unfold respond
  rw [h.path, h.method, collect_eq]
  rfl

theorem respond_of_path_ne (h : Request.path request.target ≠ metricsPath) (s : Session σ) :
    respond m request s = (notFound, s) := by
  unfold respond
  rw [if_pos (bne_iff_ne.2 h)]

theorem respond_of_method_ne (h : Request.path request.target = metricsPath)
    (hget : request.method ≠ "GET".toList) (hhead : request.method ≠ "HEAD".toList)
    (s : Session σ) : respond m request s = (methodNotAllowed, s) := by
  unfold respond
  rw [h, if_neg (by simp), if_neg hget, if_neg hhead]

/-- What a request leaves behind: what a snapshot leaves, or all as it was. -/
theorem session_of_respond (m : Monitor σ Binary64) (request : Request) (s : Session σ) :
    (respond m request s).2 = if request.Served then m.snapshot.final s else s := by
  by_cases hserved : request.Served
  · rw [if_pos hserved]
    rcases hserved with h | h
    · rw [respond_of_get h]
    · rw [respond_of_head h]
  · rw [if_neg hserved]
    by_cases hpath : Request.path request.target = metricsPath
    · have hmethod := mt (And.intro hpath) (mt Request.served_iff.2 hserved)
      rw [respond_of_method_ne hpath (mt Or.inl hmethod) (mt Or.inr hmethod)]
    · rw [respond_of_path_ne hpath]

end HttpApi

/-- What is asked of a monitor that is served: by a request, or by a call that goes past the
server. -/
inductive Use
  | request (r : Request)
  | call (c : Call)
  deriving DecidableEq

namespace Use

/-- The call that a use comes down to; a refused request comes down to none. -/
def call? : Use → Option Call
  | .request r => if r.Served then some .snapshot else none
  | .call c => some c

/-- A use comes to reading a metric. -/
def Reads (k : Metric) (u : Use) : Prop := ∃ call, u.call? = some call ∧ k ∈ call.metrics

theorem not_reads_of_refused {k : Metric} {u : Use} (h : u.call? = none) : ¬u.Reads k := by
  intro ⟨c, hc, _⟩
  rw [h] at hc
  cases hc

/-- What a use leaves behind, whether it answers or faults. -/
def sessionAfter (m : Monitor σ Binary64) : Use → Session σ → Session σ
  | .request r, s => (HttpApi.respond m r s).2
  | .call c, s => (m.call c).final s

theorem sessionAfter_of_call {u : Use} {c : Call} (h : u.call? = some c) (m : Monitor σ Binary64)
    (s : Session σ) : u.sessionAfter m s = (m.call c).final s := by
  cases u with
  | call c' => rw [sessionAfter, Option.some.inj h]
  | request r =>
      simp only [call?, Option.ite_none_right_eq_some, Option.some.injEq] at h
      obtain ⟨hserved, rfl⟩ := h
      rw [sessionAfter, HttpApi.session_of_respond, if_pos hserved, Monitor.call,
        Reading.final_map]

theorem sessionAfter_of_refused {u : Use} (h : u.call? = none) (m : Monitor σ Binary64)
    (s : Session σ) : u.sessionAfter m s = s := by
  cases u with
  | call c => cases h
  | request r =>
      simp only [call?, ite_eq_right_iff, reduceCtorEq, imp_false] at h
      rw [sessionAfter, HttpApi.session_of_respond, if_neg h]

end Use

/-- What happens in a run: a use of a monitor, with its sources as they are then, or a change of
their state. -/
inductive Event (σ : Type)
  | use (m : Monitor σ Binary64) (u : Use)
  | change (f : σ → σ)

namespace Event

def sessionAfter : Event σ → Session σ → Session σ
  | .use m u, s => u.sessionAfter m s
  | .change f, s => { s with source := f s.source }

/-- The same without the server: a call in place of a request, and nothing in place of one that is
refused. -/
def direct? : Event σ → Option (Event σ)
  | .use m u => u.call?.map fun call => .use m (.call call)
  | .change f => some (.change f)

/-- An event comes to reading a metric. -/
def Reads (k : Metric) : Event σ → Prop
  | .use _ u => u.Reads k
  | .change _ => False

/-- The session that a run leaves. -/
def sessionOf (events : List (Event σ)) (s : Session σ) : Session σ :=
  events.foldl (fun s event => event.sessionAfter s) s

theorem sessionOf_append (front back : List (Event σ)) (s : Session σ) :
    sessionOf (front ++ back) s = sessionOf back (sessionOf front s) :=
  List.foldl_append

theorem sessionAfter_of_direct {event event' : Event σ} (h : event.direct? = some event')
    (s : Session σ) : event'.sessionAfter s = event.sessionAfter s := by
  cases event with
  | change f => rw [← Option.some.inj h]
  | use m u =>
      obtain ⟨call, hcall, rfl⟩ := Option.map_eq_some_iff.1 h
      exact (Use.sessionAfter_of_call hcall m s).symm

theorem sessionAfter_of_no_direct {event : Event σ} (h : event.direct? = none) (s : Session σ) :
    event.sessionAfter s = s := by
  cases event with
  | change f => cases h
  | use m u => exact Use.sessionAfter_of_refused (Option.map_eq_none_iff.1 h) m s

/-- A run leaves what its calls leave by themselves. -/
theorem sessionOf_direct (events : List (Event σ)) : ∀ s : Session σ,
    sessionOf (events.filterMap direct?) s = sessionOf events s := by
  induction events with
  | nil => exact fun s => rfl
  | cons event rest ih =>
      intro s
      cases h : event.direct? with
      | none =>
          rw [List.filterMap_cons_none h, ih]
          exact congrArg (sessionOf rest) (sessionAfter_of_no_direct h s).symm
      | some event' =>
          rw [List.filterMap_cons_some h]
          calc sessionOf (event' :: rest.filterMap direct?) s
              = sessionOf (rest.filterMap direct?) (event'.sessionAfter s) := rfl
            _ = sessionOf rest (event'.sessionAfter s) := ih _
            _ = sessionOf rest (event.sessionAfter s) := by rw [sessionAfter_of_direct h]

/-- An event that does not read the load leaves the history alone. -/
theorem history_of_not_reads {event : Event σ} (h : ¬event.Reads .load) (s : Session σ) :
    (event.sessionAfter s).history = s.history := by
  cases event with
  | change f => rfl
  | use m u =>
      cases hcall : u.call? with
      | none => exact congrArg Session.history (Use.sessionAfter_of_refused hcall m s)
      | some call =>
          cases call with
          | snapshot => exact absurd ⟨_, hcall, Metric.load.mem_all⟩ h
          | get k =>
              have hk : k ≠ .load := fun hk => h ⟨_, hcall, by simp [Call.metrics, hk]⟩
              rw [sessionAfter, Use.sessionAfter_of_call hcall, Monitor.call, Reading.final_map,
                m.final_read_history hk]

theorem history_of_sessionOf {events : List (Event σ)} (h : ∀ event ∈ events, ¬event.Reads .load) :
    ∀ s : Session σ, (sessionOf events s).history = s.history := by
  induction events with
  | nil => exact fun s => rfl
  | cons event rest ih =>
      obtain ⟨hevent, hrest⟩ := List.forall_mem_cons.1 h
      intro s
      calc (sessionOf rest (event.sessionAfter s)).history
          = (event.sessionAfter s).history := ih hrest _
        _ = s.history := history_of_not_reads hevent s

end Event

/-- A use of a monitor over the files of a tree. -/
structure Arrival where
  tree : FileTree
  use : Use

/-- `last` is the latest of the arrivals in `front` that reads a metric, and `before` came before
it. -/
structure LastRead (k : Metric) (front before : List Arrival) (last : Arrival) : Prop where
  reads : last.use.Reads k
  latest : ∃ between, front = before ++ last :: between ∧ ∀ a ∈ between, ¬a.use.Reads k

section Measurement

variable (host : HostFiles) (group : Option Path)

def Arrival.event (a : Arrival) : Event LoadWindows :=
  .use (linuxMonitor host group a.tree) a.use

/-- The session that arrivals leave. -/
def Arrival.sessionOf (arrivals : List Arrival) (s : Session LoadWindows) : Session LoadWindows :=
  Event.sessionOf (arrivals.map (event host group)) s

/-- What a getter answers right after it was called over other files. -/
def answerSince (k : Metric) (last now : FileTree) (s : Session LoadWindows) :
    Except Overflow (MetricValue Binary64) :=
  (GetterCall.reading Binary64 host group ⟨now, k⟩).outcome
    ((GetterCall.reading Binary64 host group ⟨last, k⟩).final s)

variable {host group} {k : Metric} {s t : Session LoadWindows}

/-- What does not read a metric goes unnoticed by it. -/
theorem Arrival.agrees_of_not_reads {a : Arrival} (ha : ¬a.use.Reads k) (h : k.Agrees s t) :
    k.Agrees ((a.event host group).sessionAfter s) t := by
  obtain ⟨tree, use⟩ := a
  rw [Arrival.event, Event.sessionAfter]
  cases hcall : use.call? with
  | none => rwa [Use.sessionAfter_of_refused hcall]
  | some call =>
      rw [Use.sessionAfter_of_call hcall]
      cases call with
      | snapshot => exact absurd ⟨_, hcall, k.mem_all⟩ ha
      | get j =>
          have hj : j ≠ k := fun hj => ha ⟨_, hcall, by simp [Call.metrics, hj]⟩
          rw [Monitor.call, Reading.final_map]
          exact GetterCall.agrees_final_other Binary64 host group ⟨tree, j⟩ hj h

theorem Arrival.agrees_of_none_reads {arrivals : List Arrival}
    (ha : ∀ a ∈ arrivals, ¬a.use.Reads k) (h : k.Agrees s t) :
    k.Agrees (sessionOf host group arrivals s) t := by
  induction arrivals generalizing s with
  | nil => exact h
  | cons a rest ih =>
      obtain ⟨hfirst, hrest⟩ := List.forall_mem_cons.1 ha
      exact ih hrest (agrees_of_not_reads hfirst h)

/-- What reads a metric leaves for it what its getter leaves. -/
theorem Arrival.agrees_of_reads {a : Arrival} (ha : a.use.Reads k)
    (hsafe : ∀ metric, ¬Faults host group a.tree metric) :
    k.Agrees ((a.event host group).sessionAfter s)
      ((GetterCall.reading Binary64 host group ⟨a.tree, k⟩).final s) := by
  obtain ⟨tree, use⟩ := a
  obtain ⟨call, hcall, hk⟩ := ha
  rw [Arrival.event, Event.sessionAfter, Use.sessionAfter_of_call hcall]
  cases call with
  | get j =>
      rw [Monitor.call, Reading.final_map, List.mem_singleton.1 hk]
      exact .refl _ _
  | snapshot =>
      obtain ⟨snapshot, s', hsnapshot⟩ :=
        (snapshot_answers_iff (α := Binary64) host group tree s).2 hsafe
      rw [Monitor.call, Reading.final_map, Reading.final_of_ok hsnapshot,
        (outcomes_of_snapshot hsnapshot).2]
      exact agrees_sessionAfter_all k

/-- A getter answers as it does right after the latest use that read its metric. -/
theorem LastRead.outcome_eq {front before : List Arrival} {last : Arrival}
    (h : LastRead k front before last) (hsafe : ∀ metric, ¬Faults host group last.tree metric)
    (now : FileTree) (s : Session LoadWindows) :
    (GetterCall.reading Binary64 host group ⟨now, k⟩).outcome
        (Arrival.sessionOf host group front s) =
      answerSince host group k last.tree now (Arrival.sessionOf host group before s) := by
  obtain ⟨between, rfl, hbetween⟩ := h.latest
  apply GetterCall.outcome_of_agrees Binary64 host group ⟨now, k⟩
  have hread : k.Agrees ((last.event host group).sessionAfter
      (Arrival.sessionOf host group before s))
        ((GetterCall.reading Binary64 host group ⟨last.tree, k⟩).final
          (Arrival.sessionOf host group before s)) := Arrival.agrees_of_reads h.reads hsafe
  have hsession : Arrival.sessionOf host group (before ++ last :: between) s =
      Arrival.sessionOf host group between
        ((last.event host group).sessionAfter (Arrival.sessionOf host group before s)) := by
    rw [Arrival.sessionOf, List.map_append, Event.sessionOf_append]
    rfl
  rw [hsession]
  exact Arrival.agrees_of_none_reads hbetween hread

variable {last now : FileTree}

/-- A metric that is read in one window is measured from the last sample that was read for it. -/
theorem answerSince_of_window {key : LoadKey} {p q : CpuTicks}
    (hreading : ∀ tree, GetterCall.reading Binary64 host group ⟨tree, k⟩ =
      .load <$> reportLoad <$> (host.load tree key).inSession)
    (hlast : host.Shows last key p) (hnow : host.Shows now key q) (s : Session LoadWindows) :
    answerSince host group k last now s = .ok (.load (q.loadSince p)) := by
  rw [answerSince, hreading, hreading]
  simp only [Reading.outcome_map, Reading.outcome_inSession, Reading.final_map,
    Reading.final_inSession, Reading.final_of_ok (HostFiles.load_of_shows hlast _),
    Reading.outcome_of_ok (HostFiles.load_of_shows hnow _), LoadWindows.last_record_self]
  rfl

/-- Samples that are fed to the history are measured against those that were fed last. -/
theorem answerSince_load_of_fed {usage total usage' total' : Option Counter}
    (hlast : (linuxMonitor host group last : Monitor _ Binary64).load =
      Monitor.advance usage total)
    (hnow : (linuxMonitor host group now : Monitor _ Binary64).load =
      Monitor.advance usage' total') (s : Session LoadWindows) :
    answerSince host group .load last now s =
      .ok (.load (reportLoad ((LoadHistory.ofSamples usage total).load? usage' total'))) := by
  have hreading {tree : FileTree} : GetterCall.reading Binary64 host group ⟨tree, .load⟩ =
      .load <$> reportLoad <$> (linuxMonitor host group tree).load := rfl
  rw [answerSince, hreading, hreading, hlast, hnow]
  rfl

end Measurement

/-- How requests and direct calls share a session. -/
structure RequestLaw : Prop where
  /-- What the path of the metrics is written as. -/
  path : ∀ {target : Text}, target.head? = some '/' →
    (Request.path target = HttpApi.metricsPath ↔
      ∃ rest, target = HttpApi.metricsPath ++ rest ∧
        ∀ c ∈ rest.head?, Request.endsPath c = true)
  /-- No answer fails unless a source faults. -/
  answered : ∀ {σ : Type} {m : Monitor σ Binary64}, m.Return False → ∀ s,
    ∃ snapshot s', m.snapshot s = .ok snapshot s'
  get : ∀ {σ : Type} {m : Monitor σ Binary64} {request : Request} {s s' : Session σ}
    {snapshot : Snapshot Binary64}, request.AsksForMetrics → m.snapshot s = .ok snapshot s' →
      HttpApi.respond m request s =
          (⟨200, some "application/json", none, SnapshotJson.write snapshot⟩, s') ∧
        SnapshotJson.Represents (SnapshotJson.write snapshot) snapshot
  /-- A body tells which snapshot it is of, if the loads are finite. -/
  body : ∀ {t : Text} {snapshot snapshot' : Snapshot Binary64},
    SnapshotJson.Represents t snapshot → SnapshotJson.Represents t snapshot' →
      snapshot.load.isFinite = true → snapshot.processLoad.isFinite = true → snapshot = snapshot'
  head : ∀ {σ : Type} {m : Monitor σ Binary64} {request : Request} {s s' : Session σ}
    {snapshot : Snapshot Binary64}, request.AsksForHead → m.snapshot s = .ok snapshot s' →
      HttpApi.respond m request s = (⟨200, some "application/json", none, []⟩, s')
  refusedMethod : ∀ {σ : Type} {m : Monitor σ Binary64} {request : Request} (s : Session σ),
    Request.path request.target = HttpApi.metricsPath → request.method ≠ "GET".toList →
      request.method ≠ "HEAD".toList →
        HttpApi.respond m request s = (⟨405, none, some "GET,HEAD", []⟩, s)
  refusedPath : ∀ {σ : Type} {m : Monitor σ Binary64} {request : Request} (s : Session σ),
    Request.path request.target ≠ HttpApi.metricsPath →
      HttpApi.respond m request s = (⟨404, none, none, []⟩, s)
  /-- A run leaves what its direct calls leave once each served request is a snapshot. -/
  run : ∀ {σ : Type} (events : List (Event σ)) (s : Session σ),
    Event.sessionOf (events.filterMap Event.direct?) s = Event.sessionOf events s
  /-- Only what reads the load moves the history. -/
  history : ∀ {σ : Type} {events : List (Event σ)}, (∀ event ∈ events, ¬event.Reads .load) →
    ∀ s : Session σ, (Event.sessionOf events s).history = s.history
  /-- Each value in an answer is the one that its getter would give, had it been called where the
  metric was read last. -/
  since : ∀ {host : HostFiles} {group : Option Path} {k : Metric} {front before : List Arrival}
    {last : Arrival} {now : FileTree} {s s' : Session LoadWindows} {snapshot : Snapshot Binary64},
    LastRead k front before last → (∀ metric, ¬Faults host group last.tree metric) →
      (linuxMonitor host group now).snapshot (Arrival.sessionOf host group front s) =
        .ok snapshot s' →
      answerSince host group k last.tree now (Arrival.sessionOf host group before s) =
        .ok (snapshot.value k)
  /-- That is the load between the two samples of the process. -/
  sinceProcess : ∀ {host : HostFiles} {group : Option Path} {last now : FileTree}
    {p q : CpuTicks}, host.Shows last .process p → host.Shows now .process q → ∀ s,
      answerSince host group .processLoad last now s = .ok (.load (q.loadSince p))
  /-- Without a container it is the load between the two samples of the host. -/
  sinceHost : ∀ {host : HostFiles} {last now : FileTree} {p q : CpuTicks},
    host.Shows last .host p → host.Shows now .host q → ∀ s,
      answerSince host none .load last now s = .ok (.load (q.loadSince p))
  /-- With a quota or shares it is the load between the two pairs that are fed to the history. -/
  sinceFed : ∀ {host : HostFiles} {group : Option Path} {last now : FileTree}
    {usage total usage' total' : Option Counter},
    (linuxMonitor host group last : Monitor _ Binary64).load = Monitor.advance usage total →
      (linuxMonitor host group now : Monitor _ Binary64).load = Monitor.advance usage' total' →
        ∀ s, answerSince host group .load last now s =
          .ok (.load (reportLoad ((LoadHistory.ofSamples usage total).load? usage' total')))

/-- A request over the files of a host with one line of ticks. -/
def arrival (line method target : String) : Arrival where
  tree := statTree line
  use := .request ⟨method.toList, target.toList⟩

/-- Two requests are refused between two that are served. -/
def servedRun : List Arrival :=
  [arrival "cpu  300 0 0 100" "GET" "/metrics", arrival "cpu  350 0 0 100" "POST" "/metrics",
    arrival "cpu  350 0 0 150" "GET" "/metrics/"]

end ResourceMetrics
