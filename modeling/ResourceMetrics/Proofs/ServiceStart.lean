import ResourceMetrics.Service
import ResourceMetrics.Proofs.CallFaults

/-! What a service has when it has started: the host and the container that it was started with, and
the session that its first snapshot left. It starts exactly if that snapshot answers. -/

namespace ResourceMetrics.Service

variable (config : Config) (limit : Counter) (tree : FileTree) (system : SystemAccount)

theorem findGroup_eq_some_iff {dir : Path} : (findGroup config tree).1 = some dir ↔
    config.containerSupport = true ∧ detectGroup tree config.procRoot = .ok dir := by
  unfold findGroup
  by_cases hsupport : config.containerSupport = true
  · rw [if_pos hsupport, and_iff_right hsupport]
    cases detectGroup tree config.procRoot with
    | ok dir' => simp
    | error cause => simp
  · rw [if_neg hsupport]
    exact iff_of_false nofun fun h => hsupport h.1

theorem start_eq_ok_iff {service : Service} {note : StartNote} :
    start config limit tree system = .ok (service, note) ↔
      ∃ snapshot session,
        (linuxMonitor (hostFiles config limit system) (findGroup config tree).1 tree :
          Monitor LoadWindows Binary64).snapshot { source := {} } = .ok snapshot session ∧
        service = ⟨hostFiles config limit system, (findGroup config tree).1, session⟩ ∧
          note = (findGroup config tree).2 := by
  unfold start
  cases findGroup config tree with
  | mk group note' =>
      dsimp only
      cases (linuxMonitor (hostFiles config limit system) group tree :
          Monitor LoadWindows Binary64).snapshot { source := {} } with
      | ok snapshot session =>
          simp only [Except.ok.injEq, Prod.mk.injEq, EStateM.Result.ok.injEq]
          constructor
          · rintro ⟨rfl, rfl⟩
            exact ⟨snapshot, session, ⟨rfl, rfl⟩, rfl, rfl⟩
          · rintro ⟨_, _, ⟨rfl, rfl⟩, rfl, rfl⟩
            exact ⟨rfl, rfl⟩
      | error overflow session => simp

theorem start_answers_iff :
    (∃ service note, start config limit tree system = .ok (service, note)) ↔
      ∀ metric, ¬Faults (hostFiles config limit system) (findGroup config tree).1 tree metric := by
  rw [← snapshot_answers_iff (α := Binary64) _ _ _ { source := {} }]
  constructor
  · rintro ⟨service, note, hstart⟩
    obtain ⟨snapshot, session, hsnapshot, -⟩ := (start_eq_ok_iff config limit tree system).1 hstart
    exact ⟨snapshot, session, hsnapshot⟩
  · rintro ⟨snapshot, session, hsnapshot⟩
    exact ⟨_, _, (start_eq_ok_iff config limit tree system).2
      ⟨snapshot, session, hsnapshot, rfl, rfl⟩⟩

/-- The monitor of a service over the files of a tree, at any time after its start. -/
def monitor (service : Service) (tree : FileTree) : Monitor LoadWindows Binary64 :=
  linuxMonitor service.host service.group tree

end ResourceMetrics.Service
