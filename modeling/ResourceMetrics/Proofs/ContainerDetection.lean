import ResourceMetrics.Service
import ResourceMetrics.Proofs.FileFrame
import ResourceMetrics.Proofs.TickSums

/-! How the container is found, from the two files to the directory. In the mount table and in the
membership file the first line that fits decides, and a line that cannot be read ends the search
before it; which line that is, is told by how the lines before it can be read. Once the service has
started, the two files are not read again. -/

namespace ResourceMetrics

namespace GroupMount

/-- A line of a mount table that is read as an entry. -/
def IsEntry (line : Bytes) (entry : MountEntry) : Prop :=
  ∃ text, Utf8.decode? line = some text ∧ MountEntry.read text = .ok entry

/-- A line that is read and shows a mount of another type. -/
def Passed (line : Bytes) : Prop := ∃ entry, IsEntry line entry ∧ entry.fsType ≠ fsType

/-- What the first line decides that is not passed, in lines numbered from the given one on. -/
inductive FirstOf (path : Path) (number : Nat) :
    List Bytes → Except MountError GroupMount → Prop
  | found (front : List Bytes) {rest : List Bytes} {line : Bytes} {entry : MountEntry} :
      (∀ l ∈ front, Passed l) → IsEntry line entry → entry.fsType = fsType →
        FirstOf path number (front ++ line :: rest)
          (.ok ⟨Utf8.encode entry.root, Utf8.encode entry.mountPoint⟩)
  | notText (front : List Bytes) {rest : List Bytes} {line : Bytes} :
      (∀ l ∈ front, Passed l) → Utf8.decode? line = none →
        FirstOf path number (front ++ line :: rest) (.error (.reading path .notUtf8))
  | malformed (front : List Bytes) {rest : List Bytes} {line : Bytes} {text : Text}
      {cause : MountEntryError} :
      (∀ l ∈ front, Passed l) → Utf8.decode? line = some text →
      MountEntry.read text = .error cause →
        FirstOf path number (front ++ line :: rest)
          (.error (.badLine path (number + front.length) cause))
  | absent {ls : List Bytes} :
      (∀ l ∈ ls, Passed l) → FirstOf path number ls (.error (.noMount path))

variable {path : Path} {number : Nat}

theorem firstIn_append {front : List Bytes} (h : ∀ l ∈ front, Passed l) (ls : List Bytes) :
    firstIn path number (front ++ ls) = firstIn path (number + front.length) ls := by
  induction front generalizing number with
  | nil => rfl
  | cons line front ih =>
      obtain ⟨⟨entry, ⟨text, htext, hread⟩, htype⟩, hfront⟩ := List.forall_mem_cons.1 h
      rw [List.cons_append, firstIn, htext]
      dsimp only
      rw [hread]
      dsimp only
      rw [if_neg htype, ih hfront, List.length_cons, Nat.add_assoc, Nat.add_comm 1]

theorem FirstOf.firstIn_eq {ls : List Bytes} {r : Except MountError GroupMount}
    (h : FirstOf path number ls r) : firstIn path number ls = r := by
  cases h with
  | found front hfront hentry htype =>
      obtain ⟨text, htext, hread⟩ := hentry
      rw [firstIn_append hfront, firstIn, htext]
      dsimp only
      rw [hread]
      exact if_pos htype
  | notText front hfront htext =>
      rw [firstIn_append hfront, firstIn, htext]
  | malformed front hfront htext hread =>
      rw [firstIn_append hfront, firstIn, htext]
      dsimp only
      rw [hread]
  | absent hall =>
      rw [← List.append_nil ls, firstIn_append hall]
      rfl

/-- A line that is passed is one line more before the one that decides. -/
theorem FirstOf.cons {line : Bytes} (hline : Passed line) {ls : List Bytes}
    {r : Except MountError GroupMount} (h : FirstOf path (number + 1) ls r) :
    FirstOf path number (line :: ls) r := by
  cases h with
  | found front hfront hentry htype =>
      exact .found (line :: front) (List.forall_mem_cons.2 ⟨hline, hfront⟩) hentry htype
  | notText front hfront htext =>
      exact .notText (line :: front) (List.forall_mem_cons.2 ⟨hline, hfront⟩) htext
  | malformed front hfront htext hread =>
      have hnumber : number + 1 + front.length = number + (line :: front).length := by
        rw [List.length_cons]
        omega
      rw [hnumber]
      exact .malformed (line :: front) (List.forall_mem_cons.2 ⟨hline, hfront⟩) htext hread
  | absent hall => exact .absent (List.forall_mem_cons.2 ⟨hline, hall⟩)

theorem firstOf_firstIn (ls : List Bytes) :
    ∀ number, FirstOf path number ls (firstIn path number ls) := by
  induction ls with
  | nil => exact fun number => .absent nofun
  | cons line ls ih =>
      intro number
      rw [firstIn]
      cases htext : Utf8.decode? line with
      | none => exact FirstOf.notText [] nofun htext
      | some text =>
          dsimp only
          cases hread : MountEntry.read text with
          | error cause => exact FirstOf.malformed [] nofun htext hread
          | ok entry =>
              dsimp only
              by_cases htype : entry.fsType = fsType
              · rw [if_pos htype]
                exact FirstOf.found [] nofun ⟨text, htext, hread⟩ htype
              · rw [if_neg htype]
                exact (ih (number + 1)).cons ⟨entry, ⟨text, htext, hread⟩, htype⟩

/-- What looking for the mount comes to, by the lines of the file. -/
inductive Outcome (tree : FileTree) (path : Path) : Except MountError GroupMount → Prop
  | unopened {cause : IoError} : tree.openFile path = .error cause →
      Outcome tree path (.error (.opening path cause))
  | directory : tree.openFile path = .ok .directory →
      Outcome tree path (.error (.reading path (.io .isADirectory)))
  | lines {contents : Bytes} {r : Except MountError GroupMount} : tree.Holds path contents →
      FirstOf path 1 (lines contents) r → Outcome tree path r

theorem outcome_detect (tree : FileTree) (path : Path) : Outcome tree path (detect tree path) := by
  unfold detect
  cases hopen : tree.openFile path with
  | error cause => exact .unopened hopen
  | ok entry =>
      cases entry with
      | directory => exact .directory hopen
      | file contents => exact .lines hopen (firstOf_firstIn _ _)

theorem Outcome.detect_eq {tree : FileTree} {r : Except MountError GroupMount}
    (h : Outcome tree path r) : detect tree path = r := by
  unfold detect
  cases h with
  | unopened hopen => rw [hopen]
  | directory hopen =>
      rw [hopen]
      rfl
  | lines hcontents hfirst =>
      rw [hcontents]
      exact hfirst.firstIn_eq

end GroupMount

namespace Membership

/-- A line that is text and assigns no group. -/
def Passed (line : Bytes) : Prop := ∃ text, Utf8.decode? line = some text ∧ ofLine? text = none

/-- What the first line decides that is not passed. -/
inductive FirstOf (path : Path) : List Bytes → Except MembershipError Path → Prop
  | found (front : List Bytes) {rest : List Bytes} {line : Bytes} {text group : Text} :
      (∀ l ∈ front, Passed l) → Utf8.decode? line = some text → ofLine? text = some group →
        FirstOf path (front ++ line :: rest) (.ok (Utf8.encode group))
  | notText (front : List Bytes) {rest : List Bytes} {line : Bytes} :
      (∀ l ∈ front, Passed l) → Utf8.decode? line = none →
        FirstOf path (front ++ line :: rest) (.error (.reading path .notUtf8))
  | absent {ls : List Bytes} : (∀ l ∈ ls, Passed l) → FirstOf path ls (.error (.noEntry path))

variable {path : Path}

theorem firstIn_append {front : List Bytes} (h : ∀ l ∈ front, Passed l) (ls : List Bytes) :
    firstIn path (front ++ ls) = firstIn path ls := by
  induction front with
  | nil => rfl
  | cons line front ih =>
      obtain ⟨⟨text, htext, hnone⟩, hfront⟩ := List.forall_mem_cons.1 h
      rw [List.cons_append, firstIn, htext]
      dsimp only
      rw [hnone]
      exact ih hfront

theorem FirstOf.firstIn_eq {ls : List Bytes} {r : Except MembershipError Path}
    (h : FirstOf path ls r) : firstIn path ls = r := by
  cases h with
  | found front hfront htext hgroup =>
      rw [firstIn_append hfront, firstIn, htext]
      dsimp only
      rw [hgroup]
  | notText front hfront htext => rw [firstIn_append hfront, firstIn, htext]
  | absent hall =>
      rw [← List.append_nil ls, firstIn_append hall]
      rfl

theorem FirstOf.cons {line : Bytes} (hline : Passed line) {ls : List Bytes}
    {r : Except MembershipError Path} (h : FirstOf path ls r) : FirstOf path (line :: ls) r := by
  cases h with
  | found front hfront htext hgroup =>
      exact .found (line :: front) (List.forall_mem_cons.2 ⟨hline, hfront⟩) htext hgroup
  | notText front hfront htext =>
      exact .notText (line :: front) (List.forall_mem_cons.2 ⟨hline, hfront⟩) htext
  | absent hall => exact .absent (List.forall_mem_cons.2 ⟨hline, hall⟩)

theorem firstOf_firstIn (ls : List Bytes) : FirstOf path ls (firstIn path ls) := by
  induction ls with
  | nil => exact .absent nofun
  | cons line ls ih =>
      rw [firstIn]
      cases htext : Utf8.decode? line with
      | none => exact FirstOf.notText [] nofun htext
      | some text =>
          dsimp only
          cases hgroup : ofLine? text with
          | some group => exact FirstOf.found [] nofun htext hgroup
          | none => exact ih.cons ⟨text, htext, hgroup⟩

inductive Outcome (tree : FileTree) (path : Path) : Except MembershipError Path → Prop
  | unopened {cause : IoError} : tree.openFile path = .error cause →
      Outcome tree path (.error (.opening path cause))
  | directory : tree.openFile path = .ok .directory →
      Outcome tree path (.error (.reading path (.io .isADirectory)))
  | lines {contents : Bytes} {r : Except MembershipError Path} : tree.Holds path contents →
      FirstOf path (lines contents) r → Outcome tree path r

theorem outcome_read (tree : FileTree) (path : Path) : Outcome tree path (read tree path) := by
  unfold read
  cases hopen : tree.openFile path with
  | error cause => exact .unopened hopen
  | ok entry =>
      cases entry with
      | directory => exact .directory hopen
      | file contents => exact .lines hopen (firstOf_firstIn _)

theorem Outcome.read_eq {tree : FileTree} {r : Except MembershipError Path}
    (h : Outcome tree path r) : read tree path = r := by
  unfold read
  cases h with
  | unopened hopen => rw [hopen]
  | directory hopen =>
      rw [hopen]
      rfl
  | lines hcontents hfirst =>
      rw [hcontents]
      exact hfirst.firstIn_eq

end Membership

/-- What looking for the container comes to. Each stage is reached if those before it succeed. -/
inductive DetectionOutcome (tree : FileTree) (procRoot : Path) :
    Except DetectionError Path → Prop
  | found {mount : GroupMount} {group dir : Path} :
      GroupMount.Outcome tree (procRoot.join mountTableFile) (.ok mount) →
      Membership.Outcome tree (procRoot.join membershipFile) (.ok group) →
      mount.root.components <+: group.components → mount.resolve group = some dir →
      tree.isDirectory dir = true → DetectionOutcome tree procRoot (.ok dir)
  | mount {cause : MountError} :
      GroupMount.Outcome tree (procRoot.join mountTableFile) (.error cause) →
      DetectionOutcome tree procRoot (.error (.mount cause))
  | membership {mount : GroupMount} {cause : MembershipError} :
      GroupMount.Outcome tree (procRoot.join mountTableFile) (.ok mount) →
      Membership.Outcome tree (procRoot.join membershipFile) (.error cause) →
      DetectionOutcome tree procRoot (.error (.membership cause))
  | outside {mount : GroupMount} {group : Path} :
      GroupMount.Outcome tree (procRoot.join mountTableFile) (.ok mount) →
      Membership.Outcome tree (procRoot.join membershipFile) (.ok group) →
      ¬mount.root.components <+: group.components →
      DetectionOutcome tree procRoot (.error (.outsideMount group mount.root))
  | missing {mount : GroupMount} {group dir : Path} :
      GroupMount.Outcome tree (procRoot.join mountTableFile) (.ok mount) →
      Membership.Outcome tree (procRoot.join membershipFile) (.ok group) →
      mount.root.components <+: group.components → mount.resolve group = some dir →
      tree.isDirectory dir = false →
      DetectionOutcome tree procRoot (.error (.missingDirectory dir))

theorem detectGroup_of_ok {tree : FileTree} {procRoot : Path} {mount : GroupMount} {group : Path}
    (hmount : GroupMount.Outcome tree (procRoot.join mountTableFile) (.ok mount))
    (hgroup : Membership.Outcome tree (procRoot.join membershipFile) (.ok group)) :
    detectGroup tree procRoot =
      match mount.resolve group with
      | none => .error (.outsideMount group mount.root)
      | some dir => if tree.isDirectory dir then .ok dir else .error (.missingDirectory dir) := by
  unfold detectGroup
  rw [hmount.detect_eq, hgroup.read_eq]
  rfl

theorem DetectionOutcome.detectGroup_eq {tree : FileTree} {procRoot : Path}
    {r : Except DetectionError Path} (h : DetectionOutcome tree procRoot r) :
    detectGroup tree procRoot = r := by
  cases h with
  | found hmount hgroup _ hresolve hdir =>
      rw [detectGroup_of_ok hmount hgroup, hresolve]
      exact if_pos hdir
  | mount hmount =>
      unfold detectGroup
      rw [hmount.detect_eq]
      rfl
  | membership hmount hgroup =>
      unfold detectGroup
      rw [hmount.detect_eq, hgroup.read_eq]
      rfl
  | outside hmount hgroup hout =>
      rw [detectGroup_of_ok hmount hgroup, GroupMount.resolve_eq_none_iff.2 hout]
  | missing hmount hgroup _ hresolve hdir =>
      rw [detectGroup_of_ok hmount hgroup, hresolve]
      exact if_neg (by simp [hdir])

theorem detectGroup_outcome (tree : FileTree) (procRoot : Path) :
    DetectionOutcome tree procRoot (detectGroup tree procRoot) := by
  have hmount := GroupMount.outcome_detect tree (procRoot.join mountTableFile)
  have hgroup := Membership.outcome_read tree (procRoot.join membershipFile)
  cases hdetect : GroupMount.detect tree (procRoot.join mountTableFile) with
  | error cause =>
      rw [hdetect] at hmount
      rw [(DetectionOutcome.mount hmount).detectGroup_eq]
      exact .mount hmount
  | ok mount =>
      rw [hdetect] at hmount
      cases hread : Membership.read tree (procRoot.join membershipFile) with
      | error cause =>
          rw [hread] at hgroup
          rw [(DetectionOutcome.membership hmount hgroup).detectGroup_eq]
          exact .membership hmount hgroup
      | ok group =>
          rw [hread] at hgroup
          rw [detectGroup_of_ok hmount hgroup]
          cases hresolve : mount.resolve group with
          | none => exact .outside hmount hgroup (GroupMount.resolve_eq_none_iff.1 hresolve)
          | some dir =>
              have hbelow : mount.root.components <+: group.components := by
                by_contra hout
                rw [GroupMount.resolve_eq_none_iff.2 hout] at hresolve
                cases hresolve
              dsimp only
              cases hdir : tree.isDirectory dir with
              | true => exact .found hmount hgroup hbelow hresolve hdir
              | false => exact .missing hmount hgroup hbelow hresolve hdir

theorem detectGroup_eq_iff {tree : FileTree} {procRoot : Path} {r : Except DetectionError Path} :
    detectGroup tree procRoot = r ↔ DetectionOutcome tree procRoot r :=
  ⟨fun h => h ▸ detectGroup_outcome tree procRoot, DetectionOutcome.detectGroup_eq⟩

/-- Contents that end with some first lines, or go on behind them. -/
def GoesOn (head contents : Bytes) : Prop :=
  contents = head ∨ ∃ tail, contents = head ++ newline :: tail

theorem lines_append_newline (head tail : Bytes) :
    ∃ rest, lines (head ++ newline :: tail) = lines head ++ rest := by
  induction head with
  | nil => exact ⟨_, rfl⟩
  | cons b head ih =>
      obtain ⟨rest, hrest⟩ := ih
      by_cases hb : b = newline
      · refine ⟨rest, ?_⟩
        rw [List.cons_append, lines, lines, if_pos hb, if_pos hb, hrest]
        rfl
      · cases hhead : lines head with
        | nil =>
            -- The newline ends the line that starts here.
            cases head with
            | nil =>
                refine ⟨lines tail, ?_⟩
                simp [lines, hb]
            | cons b' head =>
                rw [lines] at hhead
                split at hhead
                · cases hhead
                · cases hhead
        | cons line others =>
            refine ⟨rest, ?_⟩
            rw [List.cons_append, lines, lines, if_neg hb, if_neg hb, hrest, hhead]
            rfl

theorem GoesOn.lines_eq {head contents : Bytes} (h : GoesOn head contents) :
    ∃ rest, lines contents = lines head ++ rest := by
  rcases h with rfl | ⟨tail, rfl⟩
  · exact ⟨[], (List.append_nil _).symm⟩
  · exact lines_append_newline head tail

theorem GroupMount.detect_goesOn {tree : FileTree} {path : Path} {head contents : Bytes}
    {front : List Bytes} {line : Bytes} {entry : MountEntry} (hcontents : tree.Holds path contents)
    (hhead : GoesOn head contents) (hlines : lines head = front ++ [line])
    (hfront : ∀ l ∈ front, Passed l) (hentry : IsEntry line entry) (htype : entry.fsType = fsType) :
    detect tree path = .ok ⟨Utf8.encode entry.root, Utf8.encode entry.mountPoint⟩ := by
  obtain ⟨rest, hrest⟩ := hhead.lines_eq
  have hsplit : lines contents = front ++ line :: rest := by
    rw [hrest, hlines, List.append_assoc]
    rfl
  refine Outcome.detect_eq (.lines hcontents ?_)
  rw [hsplit]
  exact .found front hfront hentry htype

theorem FileTree.holds_iff {tree : FileTree} {path : Path} {contents : Bytes} :
    tree.Holds path contents ↔ tree.find path = .ok (path.location tree.directory) ∧
      tree.entry? (path.location tree.directory) = some (.file contents) := by
  unfold Holds openFile
  cases hfind : tree.find path with
  | error cause => simp
  | ok location =>
      obtain rfl := find_eq_location hfind
      dsimp only
      cases hentry : tree.entry? (path.location tree.directory) with
      | none => simp
      | some entry => simp

theorem location_mountTableFile (procRoot : Path) (directory : Location) :
    ∃ parent, (procRoot.join mountTableFile).location directory =
      parent ++ [Path.ofString "self", Path.ofString "mountinfo"] :=
  Path.location_join (by decide +kernel) (by decide +kernel) directory

theorem location_membershipFile (procRoot : Path) (directory : Location) :
    ∃ parent, (procRoot.join membershipFile).location directory =
      parent ++ [Path.ofString "self", Path.ofString "cgroup"] :=
  Path.location_join (by decide +kernel) (by decide +kernel) directory

/-- The two files are at different places. -/
theorem location_mountTableFile_ne (procRoot : Path) (directory : Location) :
    (procRoot.join membershipFile).location directory ≠
      (procRoot.join mountTableFile).location directory := by
  obtain ⟨parent, hmembership⟩ := location_membershipFile procRoot directory
  obtain ⟨parent', hmount⟩ := location_mountTableFile procRoot directory
  rw [hmembership, hmount]
  intro hlast
  exact absurd (List.append_inj_right' hlast rfl) (by decide +kernel)

section Behind

variable {t t' : FileTree} {procRoot : Path} {contents contents' : Bytes}
  (hcontents : t.Holds (procRoot.join mountTableFile) contents)
  (hcontents' : t'.Holds (procRoot.join mountTableFile) contents')
  (hdirectory : t.directory = t'.directory)
  (hothers : ∀ location, location ≠ (procRoot.join mountTableFile).location t.directory →
    t.entry? location = t'.entry? location)

include hcontents hcontents' hdirectory hothers

theorem sameShape_of_holds : FileTree.SameShape t t' where
  directory := hdirectory
  entry location := by
    obtain ⟨-, hentry⟩ := FileTree.holds_iff.1 hcontents
    obtain ⟨-, hentry'⟩ := FileTree.holds_iff.1 hcontents'
    by_cases h : location = (procRoot.join mountTableFile).location t.directory
    · rw [← hdirectory] at hentry'
      rw [h, hentry, hentry']
      rfl
    · rw [hothers location h]

theorem membership_read_eq : Membership.read t (procRoot.join membershipFile) =
    Membership.read t' (procRoot.join membershipFile) := by
  have hshape := sameShape_of_holds hcontents hcontents' hdirectory hothers
  unfold Membership.read FileTree.openFile
  rw [← hshape.find]
  cases hfind : t.find (procRoot.join membershipFile) with
  | error cause => rfl
  | ok location =>
      obtain rfl := FileTree.find_eq_location hfind
      dsimp only
      rw [hothers _ (location_mountTableFile_ne procRoot t.directory)]

/-- What is behind the first line of the right type does not matter. -/
theorem detectGroup_eq_of_goesOn {head : Bytes} {front : List Bytes} {line : Bytes}
    {entry : MountEntry} (hhead : GoesOn head contents) (hhead' : GoesOn head contents')
    (hlines : lines head = front ++ [line]) (hfront : ∀ l ∈ front, GroupMount.Passed l)
    (hentry : GroupMount.IsEntry line entry) (htype : entry.fsType = GroupMount.fsType) :
    detectGroup t procRoot = detectGroup t' procRoot := by
  have hshape := sameShape_of_holds hcontents hcontents' hdirectory hothers
  unfold detectGroup
  simp only [GroupMount.detect_goesOn hcontents hhead hlines hfront hentry htype,
    GroupMount.detect_goesOn hcontents' hhead' hlines hfront hentry htype,
    membership_read_eq hcontents hcontents' hdirectory hothers, hshape.isDirectory]

end Behind

end ResourceMetrics
