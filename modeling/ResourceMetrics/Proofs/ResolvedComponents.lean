import Mathlib.Logic.Relation
import ResourceMetrics.Proofs.PathComponents

/-! The components of the directory that a group resolves to. They are those of the mount point and
then those of the group behind the root, so they depend on the components of the paths alone and not
on how these are spelled. Two paths have the same components exactly if one is got from the other by
adding or dropping slashes and dots that do not count. -/

namespace ResourceMetrics

namespace Path

/-- One way to spell a path more briefly: a segment that does not count is dropped, either from
between two slashes or at the end, there with the slash before it. -/
inductive Shortens : Path → Path → Prop
  | inner (p q : Path) {s : Bytes} : s = [] ∨ s = here →
      Shortens (p ++ slash :: (s ++ slash :: q)) (p ++ slash :: q)
  | last {p : Path} : p ≠ [] → Shortens (p ++ [slash]) p

/-- The spellings of one path. -/
abbrev SameSpelled : Path → Path → Prop := Relation.EqvGen Shortens

theorem names_of_not_isName {s : Bytes} (h : s = [] ∨ s = here) : names s = [] := by
  rcases h with rfl | rfl
  · rfl
  · decide

theorem Shortens.components_eq {p q : Path} (h : Shortens p q) : p.components = q.components := by
  cases h with
  | @inner p q s hs =>
      have hanchor : anchor (p ++ slash :: (s ++ slash :: q)) = anchor (p ++ slash :: q) := by
        by_cases hp : p = []
        · rw [hp]
          rfl
        · rw [anchor_append_slash hp, anchor_append_slash hp]
      rw [components, components, hanchor, names_append_slash, names_append_slash,
        names_append_slash, names_of_not_isName hs, List.nil_append]
  | last hp =>
      rw [components, components, anchor_append_slash hp, names_append_slash, names_nil,
        List.append_nil]

theorem SameSpelled.components_eq {p q : Path} (h : SameSpelled p q) :
    p.components = q.components := by
  induction h with
  | rel p q hstep => exact hstep.components_eq
  | refl p => rfl
  | symm p q _ ih => exact ih.symm
  | trans p q r _ _ ih ih' => exact ih.trans ih'

theorem ofSegments_singleton (s : Bytes) : ofSegments [s] = s := List.intercalate_singleton

theorem ofSegments_cons (s : Bytes) {ss : List Bytes} (h : ss ≠ []) :
    ofSegments (s :: ss) = s ++ slash :: ofSegments ss := by
  rw [ofSegments, List.intercalate_cons_of_ne_nil h, List.append_assoc]
  rfl

theorem isName_eq_false_iff {s : Bytes} : isName s = false ↔ s = [] ∨ s = here := by
  unfold isName
  rw [Bool.not_eq_false', Bool.or_eq_true, List.isEmpty_iff, beq_iff_eq]

/-- A slash at the end goes if nothing comes behind it. -/
theorem sameSpelled_ofSegments_cons (front : Path) {s : Bytes} (hs : s ≠ [])
    (ss : List Bytes) :
    SameSpelled (front ++ (s ++ slash :: ofSegments ss)) (front ++ ofSegments (s :: ss)) := by
  by_cases h : ss = []
  · have hlast : Shortens ((front ++ s) ++ [slash]) (front ++ s) :=
      .last (List.append_ne_nil_of_right_ne_nil front hs)
    rw [List.append_assoc] at hlast
    rw [h, ofSegments_singleton]
    exact .rel _ _ hlast
  · rw [ofSegments_cons s h]
    exact .refl _

/-- Behind a slash all segments that do not count can be dropped. -/
theorem sameSpelled_filter (front : Path) {ss : List Bytes} (h : ss ≠ []) :
    SameSpelled (front ++ slash :: ofSegments ss)
      (front ++ slash :: ofSegments (ss.filter isName)) := by
  induction ss generalizing front with
  | nil => exact absurd rfl h
  | cons s rest ih =>
      rcases hname : isName s with _ | _
      · rw [List.filter_cons_of_neg (by simp [hname])]
        have hs := isName_eq_false_iff.1 hname
        by_cases hrest : rest = []
        · rw [hrest, ofSegments_singleton]
          rcases hs with rfl | rfl
          · exact .refl _
          · -- A dot at the end is one between slashes once there is a slash behind it.
            have hlast : Shortens ((front ++ slash :: here) ++ [slash]) (front ++ slash :: here) :=
              .last (List.append_ne_nil_of_right_ne_nil _ (List.cons_ne_nil _ _))
            rw [List.append_assoc, List.cons_append] at hlast
            exact .trans _ _ _ (.symm _ _ (.rel _ _ hlast))
              (.rel _ _ (.inner front [] (Or.inr rfl)))
        · rw [ofSegments_cons s hrest]
          exact .trans _ _ _ (.rel _ _ (.inner front (ofSegments rest) hs)) (ih front hrest)
      · rw [List.filter_cons_of_pos hname]
        have hs : s ≠ [] := by
          rintro rfl
          cases hname
        by_cases hrest : rest = []
        · rw [hrest]
          exact .refl _
        · have hfiltered := ih (front ++ slash :: s) hrest
          have hjoined :=
            sameSpelled_ofSegments_cons (front ++ [slash]) hs (rest.filter isName)
          rw [ofSegments_cons s hrest]
          simp only [List.append_assoc, List.cons_append, List.nil_append] at hfiltered hjoined ⊢
          exact .trans _ _ _ hfiltered hjoined

/-- The text of a component. The root has none, for it is the slash before the first name. -/
def segmentOf : Component → Bytes
  | .root => []
  | .here => here
  | .name segment => segment

/-- The shortest path with some components. -/
def write : List Component → Path
  | .root :: rest => slash :: ofSegments (rest.map segmentOf)
  | components => ofSegments (components.map segmentOf)

theorem map_segmentOf_name (names : List Bytes) :
    (names.map Component.name).map segmentOf = names := by
  rw [List.map_map]
  exact List.map_id names

theorem ofSegments_segments (p : Path) : ofSegments p.segments = p :=
  List.intercalate_splitOn slash

/-- The components of a relative path are its first segment and the names behind it. -/
theorem map_segmentOf_components {p : Path} {s : Bytes} {rest : List Bytes}
    (h : p.segments = s :: rest) (hs : s ≠ []) (hp : p.isAbsolute = false) :
    p.components.map segmentOf = s :: rest.filter isName := by
  rw [components, List.map_append, map_segmentOf_name, anchor, names, hp, h, List.head?_cons,
    if_neg Bool.false_ne_true]
  by_cases hhere : s = here
  · rw [if_pos (congrArg some hhere), hhere]
    rfl
  · have hname : isName s = true := by
      rw [← Bool.not_eq_false, isName_eq_false_iff]
      exact not_or.2 ⟨hs, hhere⟩
    rw [if_neg (mt Option.some.inj hhere), List.filter_cons_of_pos hname]
    rfl

theorem write_of_relative {p : Path} (hp : p.isAbsolute = false) :
    write p.components = ofSegments (p.components.map segmentOf) := by
  unfold write
  split
  · rename_i hcomponents
    have hanchor := anchor_of_components hcomponents
    rw [isAbsolute_iff_anchor.2 hanchor] at hp
    cases hp
  · rfl

theorem eq_nil_of_segments {p : Path} {rest : List Bytes} (h : p.segments = [] :: rest)
    (hp : p.isAbsolute = false) : p = [] := by
  have hwhole : ofSegments ([] :: rest) = p := by rw [← h, ofSegments_segments]
  by_cases hrest : rest = []
  · rw [← hwhole, hrest]
    rfl
  · rw [← hwhole, ofSegments_cons [] hrest] at hp
    cases hp

theorem sameSpelled_write (p : Path) : SameSpelled p (write p.components) := by
  rcases hp : p.isAbsolute with _ | _
  · rw [write_of_relative hp]
    obtain ⟨s, rest, hsegments⟩ := List.exists_cons_of_ne_nil (segments_ne_nil p)
    by_cases hs : s = []
    · rw [eq_nil_of_segments (hs ▸ hsegments) hp]
      exact .refl _
    · have hwhole : ofSegments (s :: rest) = p := by rw [← hsegments, ofSegments_segments]
      rw [map_segmentOf_components hsegments hs hp]
      by_cases hrest : rest = []
      · rw [← hwhole, hrest]
        exact .refl _
      · have hfiltered := sameSpelled_filter s hrest
        have hjoined := sameSpelled_ofSegments_cons [] hs (rest.filter isName)
        rw [← hwhole, ofSegments_cons s hrest]
        exact .trans _ _ _ hfiltered hjoined
  · obtain ⟨q, rfl⟩ := isAbsolute_iff.1 hp
    have hnames : names (slash :: q) = (segments q).filter isName := by
      rw [names, segments_slash_cons, List.filter_cons_of_neg (by decide)]
    have hfiltered := sameSpelled_filter [] (segments_ne_nil q)
    rw [ofSegments_segments, List.nil_append] at hfiltered
    rw [components_of_isAbsolute hp, hnames, write, map_segmentOf_name]
    exact hfiltered

/-- Components are all there is to a path but its spelling. -/
theorem components_eq_iff {p q : Path} : p.components = q.components ↔ SameSpelled p q := by
  constructor
  · intro h
    have hq := sameSpelled_write q
    rw [← h] at hq
    exact .trans _ _ _ (sameSpelled_write p) (.symm _ _ hq)
  · exact SameSpelled.components_eq

theorem components_eq_nil_iff {p : Path} : p.components = [] ↔ p = [] := by
  constructor
  · intro h
    rcases hp : p.isAbsolute with _ | _
    · obtain ⟨s, rest, hsegments⟩ := List.exists_cons_of_ne_nil (segments_ne_nil p)
      by_cases hs : s = []
      · exact eq_nil_of_segments (hs ▸ hsegments) hp
      · have hsome := map_segmentOf_components hsegments hs hp
        rw [h] at hsome
        cases hsome
    · exact absurd h (components_ne_nil hp)
  · rintro rfl
    rfl

theorem ofSegments_append (front : List Bytes) (s t : Bytes) (more : List Bytes) :
    ofSegments (front ++ [s]) ++ ofSegments (t :: more) =
      ofSegments (front ++ (s ++ t) :: more) := by
  induction front with
  | nil =>
      rw [List.nil_append, List.nil_append, ofSegments_singleton]
      by_cases hmore : more = []
      · rw [hmore, ofSegments_singleton, ofSegments_singleton]
      · rw [ofSegments_cons t hmore, ofSegments_cons (s ++ t) hmore, List.append_assoc]
  | cons f front ih =>
      have hne : front ++ [s] ≠ [] := List.append_ne_nil_of_right_ne_nil _ (List.cons_ne_nil _ _)
      have hne' : front ++ (s ++ t) :: more ≠ [] :=
        List.append_ne_nil_of_right_ne_nil _ (List.cons_ne_nil _ _)
      rw [List.cons_append, List.cons_append, ofSegments_cons f hne, ofSegments_cons f hne',
        List.append_assoc, List.cons_append, ih]

/-- Text put behind a path goes on with its last segment up to the first slash. -/
theorem segments_append {p q : Path} {front more : List Bytes} {s t : Bytes}
    (hp : p.segments = front ++ [s]) (hq : q.segments = t :: more) :
    (p ++ q).segments = front ++ (s ++ t) :: more := by
  have htext : p ++ q = ofSegments (front ++ (s ++ t) :: more) := by
    rw [← ofSegments_append, ← hp, ← hq, ofSegments_segments, ofSegments_segments]
  rw [htext]
  refine segments_ofSegments ?_ (List.append_ne_nil_of_right_ne_nil _ (List.cons_ne_nil _ _))
  intro segment hsegment
  have hfront {segment : Bytes} (h : segment ∈ front ++ [s]) : slash ∉ segment :=
    slash_notMem_of_mem_segments (hp ▸ h)
  have hback {segment : Bytes} (h : segment ∈ t :: more) : slash ∉ segment :=
    slash_notMem_of_mem_segments (hq ▸ h)
  rcases List.mem_append.1 hsegment with h | h
  · exact hfront (List.mem_append_left _ h)
  · rcases List.mem_cons.1 h with rfl | h
    · rw [List.mem_append, not_or]
      exact ⟨hfront (List.mem_append_right _ List.mem_cons_self), hback List.mem_cons_self⟩
    · exact hback (List.mem_cons_of_mem _ h)

theorem segments_cons {b : UInt8} (hb : b ≠ slash) (q : Path) :
    ∃ t more, segments (b :: q) = (b :: t) :: more := by
  obtain ⟨t, more, hq⟩ := List.exists_cons_of_ne_nil (segments_ne_nil q)
  refine ⟨t, more, ?_⟩
  unfold segments at hq ⊢
  rw [List.splitOn_cons_eq_if_modifyHead, if_neg (mt beq_iff_eq.1 hb), hq, List.modifyHead_cons]

/-- A path whose last name goes on is not below the path. -/
theorem not_prefix_append {p : Path} {front : List Bytes} {s : Bytes}
    (hp : p.segments = front ++ [s]) (hs : isName s = true) {b : UInt8} (hb : b ≠ slash)
    (q : Path) : ¬p.components <+: (p ++ b :: q).components := by
  obtain ⟨t, more, hq⟩ := segments_cons hb q
  have hlonger : isName (s ++ b :: t) = true := by
    rw [← Bool.not_eq_false, isName_eq_false_iff]
    rintro (h | h)
    · exact List.append_ne_nil_of_right_ne_nil s (List.cons_ne_nil b t) h
    · have hlength := congrArg List.length h
      have hsome : s ≠ [] := fun hnil => by simp [hnil, isName] at hs
      have hpos := List.length_pos_iff.2 hsome
      rw [List.length_append, List.length_cons] at hlength
      simp only [here, List.length_singleton] at hlength
      omega
  have hnames : p.names = front.filter isName ++ [s] := by
    rw [names, hp, List.filter_append, List.filter_cons_of_pos hs, List.filter_nil]
  have hnames' : (p ++ b :: q).names =
      front.filter isName ++ (s ++ b :: t) :: more.filter isName := by
    rw [names, segments_append hp hq, List.filter_append, List.filter_cons_of_pos hlonger]
  have hne : p.components ≠ [] := by
    rw [components, hnames, List.map_append]
    simp
  intro hprefix
  obtain ⟨rest, hrest⟩ := (components_prefix_iff hne).1 hprefix
  have hgoes := ((components_eq_append_iff hne).1 hrest).2
  rw [hnames, hnames', List.append_assoc, List.append_cancel_left_eq, List.singleton_append,
    List.cons.injEq] at hgoes
  exact List.append_ne_nil_of_right_ne_nil [] (List.cons_ne_nil b t)
    (List.append_right_eq_self.1 hgoes.1)

end Path

namespace GroupMount

open ResourceMetrics.Path

variable {mount : GroupMount} {group : Path}

/-- Nothing is left of a path once all its names are gone. -/
theorem remainder_eq_nil {stem p : Path} (h : stem.components ≠ [])
    (hp : p.components = stem.components) : remainder stem p = [] := by
  have hsame : p.components = stem.components ++ ([] : List Bytes).map .name := by
    rw [hp, List.map_nil, List.append_nil]
  have hnames : (remainder stem p).names = [] := by
    rw [names_remainder h, ((components_eq_append_iff h).1 hsame).2, List.append_nil,
      List.drop_length]
  rw [remainder_eq h] at hnames ⊢
  cases hleft : segmentsAfter stem.names.length p with
  | nil => rfl
  | cons s rest =>
      have hname := isName_of_segmentsAfter hleft
      rw [names_ofSegments fun _ hs => slash_notMem_segmentsAfter hs, hleft,
        List.filter_cons_of_pos hname] at hnames
      cases hnames

theorem resolve_root (hroot : mount.root.components ≠ [])
    (h : group.components = mount.root.components) :
    mount.resolve group = some mount.mountPoint := by
  have hprefix : mount.root.components.isPrefixOf group.components = true :=
    List.isPrefixOf_iff_prefix.2 ⟨[], by rw [List.append_nil, h]⟩
  unfold resolve strip?
  rw [if_pos hprefix, Option.map_some, remainder_eq_nil hroot h]
  rfl

/-- Where a group resolves to, by components. -/
structure ComponentLaw (mount : GroupMount) (group : Path) : Prop where
  spelling_iff : ∀ p q : Path, p.components = q.components ↔ SameSpelled p q
  none_iff : mount.resolve group = none ↔ ¬mount.root.components <+: group.components
  some : ∀ {rest : List Component}, group.components = mount.root.components ++ rest →
    ∃ dir, mount.resolve group = some dir ∧
      dir.components = mount.mountPoint.components ++ rest ∧ (rest = [] → dir = mount.mountPoint)
  longerName : ∀ {front s}, mount.root.segments = front ++ [s] → isName s = true →
    ∀ {b q}, b ≠ slash → group = mount.root ++ b :: q → mount.resolve group = none
  respelled : ∀ {mount' : GroupMount} {group' : Path}, SameSpelled mount'.root mount.root →
    SameSpelled mount'.mountPoint mount.mountPoint → SameSpelled group' group →
      (mount'.resolve group').map Path.components = (mount.resolve group).map Path.components

section Law

variable (hroot : mount.root.components ≠ [])

include hroot in
theorem resolve_of_components_append {rest : List Component}
    (h : group.components = mount.root.components ++ rest) :
    ∃ dir, mount.resolve group = some dir ∧
      dir.components = mount.mountPoint.components ++ rest ∧
        (rest = [] → dir = mount.mountPoint) := by
  obtain ⟨names, hnames⟩ := (components_prefix_iff hroot).1 ⟨rest, h.symm⟩
  obtain rfl := List.append_cancel_left (h.symm.trans hnames)
  obtain ⟨dir, hdir, hcomponents, -⟩ := resolve_of_rest hroot hnames
  refine ⟨dir, hdir, hcomponents, fun hempty => ?_⟩
  rw [hempty, List.append_nil] at h
  exact Option.some.inj (hdir.symm.trans (resolve_root hroot h))

include hroot in
/-- The components of a directory come from those of the three paths alone. -/
theorem map_components_resolve : (mount.resolve group).map Path.components =
    if mount.root.components <+: group.components then
      some (mount.mountPoint.components ++
        group.components.drop mount.root.components.length)
    else none := by
  by_cases h : mount.root.components <+: group.components
  · obtain ⟨rest, hrest⟩ := h
    obtain ⟨dir, hdir, hcomponents, -⟩ := resolve_of_components_append hroot hrest.symm
    rw [if_pos ⟨rest, hrest⟩, hdir, Option.map_some, hcomponents, ← hrest, List.drop_left]
  · rw [if_neg h, resolve_eq_none_iff.2 h]
    rfl

end Law

/-- A group resolves exactly if it is below the root by its components, and to what is below the
mount point by the same components, however the paths are spelled. -/
theorem components_of_resolve (hroot : mount.root ≠ []) (group : Path) :
    ComponentLaw mount group where
  spelling_iff _ _ := components_eq_iff
  none_iff := resolve_eq_none_iff
  some := resolve_of_components_append (mt components_eq_nil_iff.1 hroot)
  longerName {front s} hsegments hs {b q} hb hgroup := by
    rw [resolve_eq_none_iff, hgroup]
    exact not_prefix_append hsegments hs hb q
  respelled {mount' group'} hsame hmount hgroup := by
    have hne : mount.root.components ≠ [] := mt components_eq_nil_iff.1 hroot
    have hne' : mount'.root.components ≠ [] := hsame.components_eq ▸ hne
    rw [map_components_resolve hne, map_components_resolve hne', hsame.components_eq,
      hmount.components_eq, hgroup.components_eq]

/-- A relative root under a leading dot, mounted at no place in particular. -/
def driftingMount : GroupMount := ⟨Path.ofString "./pods//one/", []⟩

/-- The directory starts with a name, for there is no mount point to start with. -/
theorem components_of_resolve_drifting :
    ∃ dir, driftingMount.resolve (Path.ofString "./pods/./one/../app/.") = some dir ∧
      dir.components = [.name parent, .name (Path.ofString "app")] := by
  have hlaw : ComponentLaw driftingMount (Path.ofString "./pods/./one/../app/.") :=
    components_of_resolve (by decide +kernel) _
  have hcomponents : (Path.ofString "./pods/./one/../app/.").components =
      driftingMount.root.components ++ [.name parent, .name (Path.ofString "app")] := by
    decide +kernel
  obtain ⟨dir, hdir, hresult, -⟩ := hlaw.some hcomponents
  exact ⟨dir, hdir, hresult⟩

end GroupMount

end ResourceMetrics
