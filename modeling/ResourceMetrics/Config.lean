import ResourceMetrics.Blank
import ResourceMetrics.Path

/-!
Settings come from variables with values of bytes. A variable that is not set leaves its default;
roots of file systems may be any bytes, the others have to be text.
-/

namespace ResourceMetrics

structure Config where
  procRoot : Path := Path.ofString "/proc"
  sysRoot : Path := Path.ofString "/sys"
  listenAddress : Text := "0.0.0.0:3000".toList
  /-- Whether limits of a container are looked for at all. -/
  containerSupport : Bool := true
  deriving Repr, DecidableEq

inductive ConfigError
  | notUnicode (name : String)
  | invalidBool (name : String) (value : Text)
  deriving Repr, DecidableEq

def ConfigError.message : ConfigError → String
  | .notUnicode name => "environment variable `" ++ name ++ "` is not valid unicode"
  | .invalidBool name value =>
    "environment variable `" ++ name ++ "` must be a boolean, got `" ++ String.ofList value ++ "`"

namespace Config

def procRootVariable : String := "PROC_MOUNT_PATH"

def sysRootVariable : String := "SYSFS_MOUNT_PATH"

def listenAddressVariable : String := "METRICS_LISTEN_ADDR"

def containerSupportVariable : String := "USE_CONTAINER_SUPPORT"

def trueWords : List Text := ["true".toList, "1".toList, "yes".toList]

def falseWords : List Text := ["false".toList, "0".toList, "no".toList]

/-- Reads a variable that has to be text. -/
def readText (name : String) (value : Bytes) : Except ConfigError Text :=
  match Utf8.decode? value with
  | some t => .ok t
  | none => .error (.notUnicode name)

/-- Reads a switch; blanks around it and the case of ASCII letters do not matter. -/
def readBool (name : String) (value : Bytes) : Except ConfigError Bool := do
  let t ← readText name value
  let word := t.trim.map Char.toLower
  if trueWords.contains word then pure true
  else if falseWords.contains word then pure false
  else throw (.invalidBool name t)

/-- Reads a setting, or leaves its default if it has no value. -/
def orDefault {β : Type} (default : β) (value : Option Bytes)
    (read : Bytes → Except ConfigError β) : Except ConfigError β :=
  match value with
  | none => .ok default
  | some value => read value

/-- Reads the settings from the values of variables. -/
def ofVariables (value? : String → Option Bytes) : Except ConfigError Config := do
  let default : Config := {}
  let listenAddress ←
    orDefault default.listenAddress (value? listenAddressVariable) (readText listenAddressVariable)
  let containerSupport ←
    orDefault default.containerSupport (value? containerSupportVariable)
      (readBool containerSupportVariable)
  pure
    { procRoot := (value? procRootVariable).getD default.procRoot
      sysRoot := (value? sysRootVariable).getD default.sysRoot
      listenAddress, containerSupport }

end Config

end ResourceMetrics
