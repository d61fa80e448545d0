import ResourceMetrics.SnapshotJson

/-!
One resource, `/metrics`, whose representation is a fresh snapshot. `GET` and `HEAD` take it, any
other method is refused, and no other path is known; what is refused takes no snapshot.
-/

namespace ResourceMetrics

structure Request where
  method : Text := "GET".toList
  target : Text
  deriving Repr, DecidableEq

structure Response where
  status : Nat
  contentType : Option String := none
  allow : Option String := none
  body : Text := []
  deriving Repr, DecidableEq

namespace Request

/-- What follows the scheme and its slashes in an absolute target. -/
def afterScheme? : Text → Option Text
  | ':' :: '/' :: '/' :: rest => some rest
  | c :: rest => if c = '/' || c = '?' || c = '#' then none else afterScheme? rest
  | [] => none

def endsPath (c : Char) : Bool := c = '?' || c = '#'

/-- The path of a target, without query and fragment. An absolute target has one after its host,
which is `/` if nothing is written; a target that only names a host has none. -/
def path (target : Text) : Text :=
  if target.head? = some '/' then target.takeWhile (!endsPath ·)
  else
    match afterScheme? target with
    | none => []
    | some rest =>
      match (rest.dropWhile fun c => !(c = '/' || endsPath c)).takeWhile (!endsPath ·) with
      | [] => ['/']
      | path => path

end Request

namespace HttpApi

def metricsPath : Text := "/metrics".toList

def notFound : Response := ⟨404, none, none, []⟩

def methodNotAllowed : Response := ⟨405, none, some "GET,HEAD", []⟩

def ofSnapshot (s : Snapshot Binary64) : Response :=
  ⟨200, some "application/json", none, SnapshotJson.write s⟩

/-- The answer when taking the snapshot faults. -/
def collectionFailed : Response :=
  ⟨500, some "text/plain; charset=utf-8", none, "failed to collect metrics".toList⟩

/-- What the resource answers to `GET`. A fault ends in an answer, with the state as it was
reached. -/
def collect {σ : Type} (m : Monitor σ Binary64) (s : Session σ) : Response × Session σ :=
  match m.snapshot s with
  | .ok snapshot s => (ofSnapshot snapshot, s)
  | .error _ s => (collectionFailed, s)

def withoutBody (r : Response) : Response := { r with body := [] }

def respond {σ : Type} (m : Monitor σ Binary64) (request : Request) (s : Session σ) :
    Response × Session σ :=
  if Request.path request.target != metricsPath then (notFound, s)
  else if request.method = "GET".toList then collect m s
  else if request.method = "HEAD".toList then
    let (response, s) := collect m s
    (withoutBody response, s)
  else (methodNotAllowed, s)

end HttpApi

end ResourceMetrics
