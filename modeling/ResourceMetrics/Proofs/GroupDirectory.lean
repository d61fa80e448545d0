import ResourceMetrics.Proofs.PathComponents

/-! Whether the directory of a control group stays below the mount. The names of a group behind
those of the mounted part are put behind the mount point as they are, `..` with the rest of them.
Where they lead is told from their course: how far up they go first, and the names they go down by
after that. A group that goes up from the mounted part lies outside of it, and its directory lies
outside of the mount, unless the way down leads back through the very names that were left. -/

namespace ResourceMetrics

namespace Path

/-- A way from some place: so far up, and then down by some names. -/
structure Course where
  up : Nat := 0
  down : List Bytes := []
  deriving DecidableEq

/-- Goes on by one name, where `..` undoes the last step down. -/
def Course.follow (c : Course) (name : Bytes) : Course :=
  if name = parent then
    if c.down = [] then { c with up := c.up + 1 } else { c with down := c.down.dropLast }
  else { c with down := c.down ++ [name] }

def course (names : List Bytes) : Course := names.foldl Course.follow {}

/-- A course and then another one. What the second goes up more than the first came down is added
to the way up. -/
def Course.andThen (c d : Course) : Course where
  up := c.up + (d.up - c.down.length)
  down := c.down.take (c.down.length - d.up) ++ d.down

/-- The names that lead to an absolute path from the root, above which there is nothing. -/
def place (p : Path) : List Bytes := (course p.names).down

/-- Where a course goes up from the end of some names, it comes down by them again. -/
def Course.Regains (c : Course) (names : List Bytes) : Prop :=
  names.drop (names.length - c.up) <+: c.down

/-- A course ends at or below the end of another one from the same place. The names above that
place are not known: what goes up less far is below all that is further up. -/
def Course.Below (c other : Course) : Prop :=
  (c.up = other.up ∧ other.down <+: c.down) ∨ (other.down = [] ∧ c.up ≤ other.up)

instance (c : Course) (names : List Bytes) : Decidable (c.Regains names) :=
  inferInstanceAs (Decidable (_ <+: _))

instance (c other : Course) : Decidable (c.Below other) :=
  inferInstanceAs (Decidable (_ ∨ _))

theorem course_concat (names : List Bytes) (name : Bytes) :
    course (names ++ [name]) = (course names).follow name := by
  rw [course, List.foldl_concat]
  rfl

theorem course_of_parent_notMem {names : List Bytes} (h : parent ∉ names) :
    course names = ⟨0, names⟩ := by
  induction names using List.reverseRecOn with
  | nil => rfl
  | append_singleton names name ih =>
      rw [List.mem_append, not_or, List.mem_singleton] at h
      rw [course_concat, ih h.1, Course.follow, if_neg (Ne.symm h.2)]

theorem Course.andThen_follow (c d : Course) (name : Bytes) :
    (c.andThen d).follow name = c.andThen (d.follow name) := by
  by_cases hname : name = parent
  · by_cases hdown : d.down = []
    · rw [follow, follow, if_pos hname, if_pos hname, if_pos hdown]
      by_cases hleft : c.down.length ≤ d.up
      · -- The second course is above the start of the first already.
        have hempty : (c.andThen d).down = [] := by
          simp [andThen, hdown, Nat.sub_eq_zero_of_le hleft]
        rw [if_pos hempty]
        have hup : c.up + (d.up - c.down.length) + 1 = c.up + (d.up + 1 - c.down.length) := by omega
        have htake : c.down.length - (d.up + 1) = c.down.length - d.up := by omega
        simp only [andThen, hup, htake]
      · have hsome : (c.andThen d).down ≠ [] := by
          have hlength : (c.andThen d).down.length = c.down.length - d.up := by
            simp [andThen, hdown]
          intro hempty
          rw [hempty, List.length_nil] at hlength
          omega
        rw [if_neg hsome]
        have hup : d.up + 1 - c.down.length = d.up - c.down.length := by omega
        have htake : c.down.length - (d.up + 1) = c.down.length - d.up - 1 := by omega
        have hlast : (c.down.take (c.down.length - d.up)).dropLast =
            c.down.take (c.down.length - d.up - 1) := by
          rw [List.dropLast_eq_take, List.length_take, List.take_take]
          congr 1
          omega
        simp only [andThen, hup, htake, hdown, List.append_nil, hlast]
    · have hsome : (c.andThen d).down ≠ [] := List.append_ne_nil_of_right_ne_nil _ hdown
      rw [follow, follow, if_pos hname, if_pos hname, if_neg hdown, if_neg hsome, andThen, andThen,
        List.dropLast_append_of_ne_nil hdown]
  · rw [follow, follow, if_neg hname, if_neg hname, andThen, andThen, List.append_assoc]

theorem course_append (names more : List Bytes) :
    course (names ++ more) = (course names).andThen (course more) := by
  induction more using List.reverseRecOn with
  | nil =>
      have hempty : course [] = {} := rfl
      simp [hempty, Course.andThen]
  | append_singleton more name ih =>
      rw [← List.append_assoc, course_concat, course_concat, ih, Course.andThen_follow]

theorem prefix_take_append_iff {names down : List Bytes} {n : Nat} :
    names <+: names.take n ++ down ↔ names.drop n <+: down := by
  calc names <+: names.take n ++ down
      ↔ names.take n ++ names.drop n <+: names.take n ++ down := by rw [List.take_append_drop]
    _ ↔ names.drop n <+: down := List.prefix_append_right_inj _

theorem Course.prefix_andThen_iff (c d : Course) :
    c.down <+: (c.andThen d).down ↔ d.Regains c.down :=
  prefix_take_append_iff

/-- A course goes on below its end exactly if it comes back wherever it goes up, and does not go up
beyond its start. -/
theorem Course.below_andThen_iff (c d : Course) :
    (c.andThen d).Below c ↔ d.up ≤ c.down.length ∧ d.Regains c.down := by
  rw [← Course.prefix_andThen_iff]
  unfold Below
  have hup : (c.andThen d).up = c.up + (d.up - c.down.length) := rfl
  constructor
  · rintro (⟨heq, hprefix⟩ | ⟨hempty, hle⟩)
    · exact ⟨by omega, hprefix⟩
    · refine ⟨by omega, ?_⟩
      rw [hempty]
      exact List.nil_prefix
  · rintro ⟨hle, hprefix⟩
    exact Or.inl ⟨by omega, hprefix⟩

end Path

namespace GroupMount

open ResourceMetrics.Path

variable {mount : GroupMount} {group : Path}

/-- The directory of a group is the mount point or below it, and a group that does not lie in the
mounted part has none. -/
structure Confined (mount : GroupMount) (group : Path) : Prop where
  below : ∀ dir, mount.resolve group = some dir → mount.mountPoint.place <+: dir.place
  outside : ¬(course group.names).Below (course mount.root.names) → mount.resolve group = none

/-- Where the names of a group go up behind those of the mounted part, they come back both in the
hierarchy and from the mount point. -/
structure Returning (mount : GroupMount) (rest : List Bytes) : Prop where
  mountPoint : (course rest).Regains mount.mountPoint.names
  root_up : (course rest).up ≤ (course mount.root.names).down.length
  root : (course rest).Regains (course mount.root.names).down

/-- The directory of a group, by the names of the group behind those of the mounted part. -/
structure DirectoryLaw (mount : GroupMount) (group : Path) : Prop where
  none : (∀ rest : List Bytes, group.components ≠ mount.root.components ++ rest.map .name) →
    mount.resolve group = none
  some : ∀ rest : List Bytes, group.components = mount.root.components ++ rest.map .name →
    ∃ dir, mount.resolve group = some dir ∧
      dir.components = mount.mountPoint.components ++ rest.map .name
  confined_iff : Confined mount group ↔
    ∀ rest : List Bytes, group.components = mount.root.components ++ rest.map .name →
      Returning mount rest

section Law

variable (hroot : mount.root.isAbsolute = true)

variable (hparent : parent ∉ mount.mountPoint.names)

include hparent in
theorem mountPoint_isPrefix_iff {dir : Path} {rest : List Bytes}
    (h : dir.names = mount.mountPoint.names ++ rest) :
    mount.mountPoint.place <+: dir.place ↔ (course rest).Regains mount.mountPoint.names := by
  have hcourse := course_of_parent_notMem hparent
  have hdown : mount.mountPoint.names = (course mount.mountPoint.names).down := by rw [hcourse]
  rw [place, place, h, course_append, Course.prefix_andThen_iff, ← hdown]

include hroot in
theorem below_root_iff {rest : List Bytes}
    (h : group.components = mount.root.components ++ rest.map .name) :
    (course group.names).Below (course mount.root.names) ↔
      (course rest).up ≤ (course mount.root.names).down.length ∧
        (course rest).Regains (course mount.root.names).down := by
  rw [((components_eq_append_iff (components_ne_nil hroot)).1 h).2, course_append,
    Course.below_andThen_iff]

include hroot hparent in
theorem confined_iff_returning {rest : List Bytes}
    (h : group.components = mount.root.components ++ rest.map .name) :
    Confined mount group ↔ Returning mount rest := by
  obtain ⟨dir, hdir, -, hnames⟩ := resolve_of_rest (components_ne_nil hroot) h
  constructor
  · intro hconfined
    have hbelow : (course group.names).Below (course mount.root.names) := by
      by_contra hout
      rw [hconfined.outside hout] at hdir
      cases hdir
    obtain ⟨hup, hregains⟩ := (below_root_iff hroot h).1 hbelow
    exact ⟨(mountPoint_isPrefix_iff hparent hnames).1 (hconfined.below dir hdir), hup, hregains⟩
  · intro hreturning
    refine ⟨?_, ?_⟩
    · intro dir' hdir'
      obtain rfl := Option.some.inj (hdir.symm.trans hdir')
      exact (mountPoint_isPrefix_iff hparent hnames).2 hreturning.mountPoint
    · intro hout
      exact absurd ((below_root_iff hroot h).2 ⟨hreturning.root_up, hreturning.root⟩) hout

include hroot hparent in
/-- The directory of a group stays below the mount exactly if the group does not go up from the
mounted part, or comes back to it. -/
theorem directory_of_resolve (group : Path) : DirectoryLaw mount group where
  none := resolve_eq_none (components_ne_nil hroot)
  some rest h := by
    obtain ⟨dir, hdir, hcomponents, -⟩ := resolve_of_rest (components_ne_nil hroot) h
    exact ⟨dir, hdir, hcomponents⟩
  confined_iff := by
    constructor
    · intro hconfined rest h
      exact (confined_iff_returning hroot hparent h).1 hconfined
    · intro hall
      by_cases hrest : ∃ rest : List Bytes,
          group.components = mount.root.components ++ rest.map .name
      · obtain ⟨rest, h⟩ := hrest
        exact (confined_iff_returning hroot hparent h).2 (hall rest h)
      · have hnone := resolve_eq_none (components_ne_nil hroot) (not_exists.1 hrest)
        refine ⟨?_, fun _ => hnone⟩
        intro dir hdir
        rw [hnone] at hdir
        cases hdir

end Law

/-- A part of the hierarchy, mounted under the name that it has there. -/
def podMount : GroupMount := ⟨Path.ofString "/pods/one", Path.ofString "/sys/one"⟩

/-- The way up from the mounted part leads back by the name that was left. -/
theorem directory_of_resolve_pod :
    podMount.resolve (Path.ofString "/pods/one/../one/app") =
        some (Path.ofString "/sys/one/../one/app") ∧
      Confined podMount (Path.ofString "/pods/one/../one/app") := by
  refine ⟨by decide +kernel, ?_⟩
  have hlaw : DirectoryLaw podMount (Path.ofString "/pods/one/../one/app") :=
    directory_of_resolve (by decide +kernel) (by decide +kernel) _
  refine hlaw.confined_iff.2 fun rest h => ?_
  have hcomponents : components (Path.ofString "/pods/one/../one/app") =
      podMount.root.components ++ [parent, Path.ofString "one", Path.ofString "app"].map .name := by
    decide +kernel
  obtain rfl := name_injective.list_map (List.append_cancel_left (h.symm.trans hcomponents))
  exact ⟨by decide +kernel, by decide +kernel, by decide +kernel⟩

/-- The whole hierarchy at its usual place. -/
def usualMount : GroupMount := ⟨Path.ofString "/", Path.ofString "/sys/fs/cgroup"⟩

/-- The group of a process outside the reader's part of the hierarchy gets a directory, and that
is beside the mount point. -/
theorem resolve_leaves_mount :
    usualMount.resolve (Path.ofString "/../other") =
        some (Path.ofString "/sys/fs/cgroup/../other") ∧
      ¬usualMount.mountPoint.place <+: place (Path.ofString "/sys/fs/cgroup/../other") ∧
      ¬(course (names (Path.ofString "/../other"))).Below (course usualMount.root.names) := by
  exact ⟨by decide +kernel, by decide +kernel, by decide +kernel⟩

end GroupMount

end ResourceMetrics
