import ResourceMetrics.LoadHistory
import ResourceMetrics.Sources

/-!
A monitor looks at a host and, if there is one, at the container that the process runs in. What
the container cannot answer is answered by the host. All that a monitor itself remembers is the
history of the container's load.
-/

namespace ResourceMetrics

/-- Whether there is a container is settled when the monitor is made. -/
structure Monitor (σ α : Type) where
  host : HostSource σ α
  container : Option (ContainerSource σ)

/-- What a run of readings carries along: the monitor's history and the state of its sources. -/
structure Session (σ : Type) where
  history : LoadHistory := {}
  source : σ
  deriving Repr, DecidableEq

/-- A reading from the sources within a session. -/
def Reading.inSession {σ β : Type} (r : Reading σ β) : Reading (Session σ) β := fun s =>
  match r s.source with
  | .ok b source => .ok b { s with source }
  | .error fault source => .error fault { s with source }

theorem Reading.inSession_ok {σ β : Type} {r : Reading σ β} {s : Session σ} {b : β} {source : σ}
    (h : r s.source = .ok b source) : r.inSession s = .ok b { s with source } := by
  simp [inSession, h]

theorem Reading.inSession_error {σ β : Type} {r : Reading σ β} {s : Session σ} {fault : Overflow}
    {source : σ} (h : r s.source = .error fault source) :
    r.inSession s = .error fault { s with source } := by
  simp [inSession, h]

end ResourceMetrics
