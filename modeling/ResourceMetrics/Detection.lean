import ResourceMetrics.FileTree
import ResourceMetrics.Lines
import ResourceMetrics.MountEntry
import ResourceMetrics.StatError

/-!
The mount table says where the unified hierarchy of control groups is mounted and which part of
it, the membership file says where in the hierarchy the process is. Both together give the
directory of its group, if that is in the mounted part and is there.
-/

namespace ResourceMetrics

/-- Why no further line of a file could be read. -/
inductive LineError
  | io (cause : IoError)
  | notUtf8
  deriving Repr, DecidableEq

def LineError.message : LineError → String
  | .io cause => cause.message
  | .notUtf8 => notUtf8Message

def lineMessage (path : Path) (cause : LineError) : String :=
  "failed to read line for file `" ++ path.display ++ "`: " ++ cause.message

/-- A mounted unified hierarchy: the path of the mounted part within the hierarchy and the place
it is mounted at. -/
structure GroupMount where
  root : Path
  mountPoint : Path
  deriving Repr, DecidableEq

inductive MountError
  | opening (path : Path) (cause : IoError)
  | reading (path : Path) (cause : LineError)
  | noMount (path : Path)
  | badLine (path : Path) (line : Nat) (cause : MountEntryError)
  deriving Repr, DecidableEq

def MountError.message : MountError → String
  | .opening path cause => openingMessage path cause
  | .reading path cause => lineMessage path cause
  | .noMount path => "failed to detect cgroup v2 mount point in file `" ++ path.display ++ "`"
  | .badLine path line cause =>
    "failed to parse line " ++ line.repr ++ " in file `" ++ path.display ++ "`: " ++ cause.message

namespace GroupMount

/-- The type of file system that the unified hierarchy is mounted as. -/
def fsType : Text := "cgroup2".toList

/-- The directory of a group, none if the group is outside the mounted part. -/
def resolve (mount : GroupMount) (group : Path) : Option Path :=
  (Path.strip? mount.root group).map fun below =>
    if below.isEmpty then mount.mountPoint else mount.mountPoint.join below

/-- The first mount of the hierarchy in lines numbered from the given one on. Lines before it
have to be well formed, later ones are not looked at. -/
def firstIn (path : Path) : Nat → List Bytes → Except MountError GroupMount
  | _, [] => .error (.noMount path)
  | number, line :: rest =>
    match Utf8.decode? line with
    | none => .error (.reading path .notUtf8)
    | some text =>
      match MountEntry.read text with
      | .error cause => .error (.badLine path number cause)
      | .ok entry =>
        if entry.fsType = fsType then
          .ok ⟨Utf8.encode entry.root, Utf8.encode entry.mountPoint⟩
        else firstIn path (number + 1) rest

def detect (tree : FileTree) (path : Path) : Except MountError GroupMount :=
  match tree.openFile path with
  | .error cause => .error (.opening path cause)
  | .ok entry =>
    match entry.contents with
    | .error cause => .error (.reading path (.io cause))
    | .ok contents => firstIn path 1 (lines contents)

end GroupMount

inductive MembershipError
  | opening (path : Path) (cause : IoError)
  | reading (path : Path) (cause : LineError)
  | noEntry (path : Path)
  deriving Repr, DecidableEq

def MembershipError.message : MembershipError → String
  | .opening path cause => openingMessage path cause
  | .reading path cause => lineMessage path cause
  | .noEntry path => "no cgroup v2 membership entry in file `" ++ path.display ++ "`"

namespace Membership

/-- The group that a line assigns in the unified hierarchy, which has number 0 and no
controllers. Blanks at the end of the line do not belong to it. -/
def ofLine? (line : Text) : Option Text :=
  match line.trimEnd with
  | '0' :: ':' :: ':' :: group => some group
  | _ => none

def firstIn (path : Path) : List Bytes → Except MembershipError Path
  | [] => .error (.noEntry path)
  | line :: rest =>
    match Utf8.decode? line with
    | none => .error (.reading path .notUtf8)
    | some text =>
      match ofLine? text with
      | some group => .ok (Utf8.encode group)
      | none => firstIn path rest

/-- The group of a process by its membership file. -/
def read (tree : FileTree) (path : Path) : Except MembershipError Path :=
  match tree.openFile path with
  | .error cause => .error (.opening path cause)
  | .ok entry =>
    match entry.contents with
    | .error cause => .error (.reading path (.io cause))
    | .ok contents => firstIn path (lines contents)

end Membership

inductive DetectionError
  | mount (cause : MountError)
  | membership (cause : MembershipError)
  | outsideMount (group root : Path)
  | missingDirectory (path : Path)
  deriving Repr, DecidableEq

def DetectionError.message : DetectionError → String
  | .mount cause => cause.message
  | .membership cause => cause.message
  | .outsideMount group root =>
    "cgroup `" ++ group.display ++ "` is not visible below the cgroup2 mount rooted at `" ++
      root.display ++ "`"
  | .missingDirectory path => "cgroup directory `" ++ path.display ++ "` does not exist"

def mountTableFile : Path := Path.ofString "self/mountinfo"

def membershipFile : Path := Path.ofString "self/cgroup"

/-- The directory of the process's control group. -/
def detectGroup (tree : FileTree) (procRoot : Path) : Except DetectionError Path := do
  let mount ← (GroupMount.detect tree (procRoot.join mountTableFile)).mapError .mount
  let group ← (Membership.read tree (procRoot.join membershipFile)).mapError .membership
  match mount.resolve group with
  | none => throw (.outsideMount group mount.root)
  | some dir => if tree.isDirectory dir then pure dir else throw (.missingDirectory dir)

end ResourceMetrics
