import ResourceMetrics.Config
import ResourceMetrics.ControlGroup
import ResourceMetrics.Detection
import ResourceMetrics.HostFiles
import ResourceMetrics.HttpApi

/-!
The service looks for the control group of its process once, when it starts, and takes one
snapshot, so that the first request sees a recent load. After that every reading is of the files
as they are then.
-/

namespace ResourceMetrics

/-- The monitor over the files of a tree, with the directory of the container's control group if
there is a container. -/
def linuxMonitor {α : Type} [LoadScale α] (host : HostFiles) (group : Option Path)
    (tree : FileTree) : Monitor LoadWindows α where
  host := host.source tree
  container := group.map fun dir => ControlGroup.source dir tree

/-- What the service says about the container when it starts. -/
inductive StartNote
  | supportDisabled
  | noContainer (cause : DetectionError)
  | containerActive
  deriving Repr, DecidableEq

def StartNote.message : StartNote → String
  | .supportDisabled => "Container support disabled"
  | .noContainer cause => "No container limits detected, using host metrics: " ++ cause.message
  | .containerActive => "Container support active, metrics reflect container limits"

/-- A service that runs: its host, the directory of its control group if it has one, and what it
remembers of earlier readings. -/
structure Service where
  host : HostFiles
  group : Option Path
  session : Session LoadWindows

namespace Service

/-- Looks for the control group, unless that is switched off. -/
def findGroup (config : Config) (tree : FileTree) : Option Path × StartNote :=
  if config.containerSupport then
    match detectGroup tree config.procRoot with
    | .ok dir => (some dir, .containerActive)
    | .error cause => (none, .noContainer cause)
  else (none, .supportDisabled)

/-- The host as the settings and the system describe it. -/
def hostFiles (config : Config) (descriptorLimit : Counter) (system : SystemAccount) :
    HostFiles where
  toSystemAccount := system
  procRoot := config.procRoot
  sysRoot := config.sysRoot
  descriptorLimit := descriptorLimit

/-- Starts the service. The first snapshot may fault. -/
def start (config : Config) (descriptorLimit : Counter) (tree : FileTree)
    (system : SystemAccount := {}) : Except Overflow (Service × StartNote) :=
  let host := hostFiles config descriptorLimit system
  let (group, note) := findGroup config tree
  let monitor : Monitor LoadWindows Binary64 := linuxMonitor host group tree
  match monitor.snapshot { source := {} } with
  | .ok _ session => .ok (⟨host, group, session⟩, note)
  | .error fault _ => .error fault

/-- What is wrong with a listen address before it is looked up. -/
inductive AddressError
  | noSeparator
  | badNumber
  deriving Repr, DecidableEq

def AddressError.message : AddressError → String
  | .noSeparator => "invalid socket address"
  | .badNumber => "invalid port value"

/-- Checks that an address ends in a colon and a number of 16 bits. -/
def checkAddress (address : Text) : Except AddressError Unit :=
  match address.afterLast? ':' with
  | none => .error .noSeparator
  | some number =>
    match Numeral.read UInt16.size number with
    | .ok _ => .ok ()
    | .error _ => .error .badNumber

/-- Why the service does not get to serve. -/
inductive RunError
  | config (cause : ConfigError)
  | fault (cause : Overflow)
  | address (cause : AddressError)
  deriving Repr, DecidableEq

def RunError.message : RunError → String
  | .config cause => cause.message
  | .fault cause => cause.message
  | .address cause => cause.message

/-- Reads the settings, starts the service and checks the address to serve at. -/
def run (value? : String → Option Bytes) (descriptorLimit : Counter) (tree : FileTree)
    (system : SystemAccount := {}) : Except RunError (Service × StartNote) := do
  let config ← (Config.ofVariables value?).mapError .config
  let service ← (start config descriptorLimit tree system).mapError .fault
  (checkAddress config.listenAddress).mapError .address
  pure service

end Service

end ResourceMetrics
