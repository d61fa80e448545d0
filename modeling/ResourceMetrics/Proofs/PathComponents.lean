import Mathlib.Data.List.DropRight
import ResourceMetrics.Detection

/-! Components of joined and stripped paths. A path is taken apart at its slashes, so all facts come
from its list of segments: those of two paths with a slash in between are the segments of both, and
a list of segments without slashes is got back from the path that joins them. -/

namespace ResourceMetrics

namespace Path

theorem segments_append_slash (p q : Path) :
    segments (p ++ slash :: q) = p.segments ++ q.segments :=
  List.splitOn_append_cons_self p q

theorem segments_ne_nil (p : Path) : p.segments ≠ [] :=
  List.splitOn_ne_nil slash p

theorem slash_notMem_of_mem_segments {p : Path} {s : Bytes} (h : s ∈ p.segments) : slash ∉ s := by
  induction p generalizing s with
  | nil =>
      rw [segments, List.splitOn_nil, List.mem_singleton] at h
      rw [h]
      exact List.not_mem_nil
  | cons b p ih =>
      unfold segments at h
      rw [List.splitOn_cons_eq_if_modifyHead] at h
      obtain ⟨first, rest, hsplit⟩ := List.exists_cons_of_ne_nil (segments_ne_nil p)
      unfold segments at hsplit
      by_cases hb : b = slash
      · rw [if_pos (beq_iff_eq.2 hb), List.mem_cons] at h
        rcases h with rfl | h
        · exact List.not_mem_nil
        · exact ih h
      · rw [if_neg (mt beq_iff_eq.1 hb), hsplit, List.modifyHead_cons, List.mem_cons] at h
        rcases h with rfl | h
        · have hfirst : slash ∉ first := ih (by rw [segments, hsplit]; exact List.mem_cons_self)
          rw [List.mem_cons, not_or]
          exact ⟨Ne.symm hb, hfirst⟩
        · exact ih (by rw [segments, hsplit]; exact List.mem_cons_of_mem _ h)

theorem segments_ofSegments {ss : List Bytes} (h : ∀ s ∈ ss, slash ∉ s) (hne : ss ≠ []) :
    (ofSegments ss).segments = ss :=
  List.splitOn_intercalate slash h hne

theorem names_append_slash (p q : Path) : names (p ++ slash :: q) = p.names ++ q.names := by
  rw [names, segments_append_slash, List.filter_append]
  rfl

@[simp] theorem names_nil : names [] = [] := rfl

theorem names_ofSegments {ss : List Bytes} (h : ∀ s ∈ ss, slash ∉ s) :
    (ofSegments ss).names = ss.filter isName := by
  by_cases hne : ss = []
  · rw [hne]
    rfl
  · rw [names, segments_ofSegments h hne]

theorem filter_dropWhile_not_isName (ss : List Bytes) :
    (ss.dropWhile (!isName ·)).filter isName = ss.filter isName := by
  induction ss with
  | nil => rfl
  | cons s rest ih =>
      by_cases hs : isName s = true
      · rw [List.dropWhile_cons_of_neg (by simp [hs])]
      · rw [List.dropWhile_cons_of_pos (by simp [hs]), ih, List.filter_cons_of_neg hs]

theorem filter_dropNames (n : Nat) (ss : List Bytes) :
    (dropNames n ss).filter isName = (ss.filter isName).drop n := by
  induction ss generalizing n with
  | nil => cases n <;> rfl
  | cons s rest ih =>
      cases n with
      | zero => rfl
      | succ n =>
          by_cases hs : isName s = true
          · rw [dropNames, if_pos hs, ih, List.filter_cons_of_pos hs, List.drop_succ_cons]
          · rw [dropNames, if_neg hs, ih, List.filter_cons_of_neg hs]

theorem filter_trimTail (ss : List Bytes) : (trimTail ss).filter isName = ss.filter isName := by
  rw [trimTail, List.filter_reverse, filter_dropWhile_not_isName, List.filter_reverse,
    List.reverse_reverse]

theorem isPrefix_trimTail (ss : List Bytes) : trimTail ss <+: ss :=
  List.rdropWhile_prefix (!isName ·) ss

theorem dropNames_suffix (n : Nat) (ss : List Bytes) : dropNames n ss <:+ ss := by
  induction ss generalizing n with
  | nil => cases n <;> exact List.suffix_rfl
  | cons s rest ih =>
      cases n with
      | zero => exact List.suffix_rfl
      | succ n =>
          rw [dropNames]
          split
          · exact (ih n).trans (List.suffix_cons s rest)
          · exact (ih (n + 1)).trans (List.suffix_cons s rest)

/-- The segments that are left of a path once a number of names is gone. -/
def segmentsAfter (n : Nat) (p : Path) : List Bytes :=
  trimTail ((dropNames n p.segments).dropWhile (!isName ·))

theorem filter_segmentsAfter (n : Nat) (p : Path) :
    (segmentsAfter n p).filter isName = p.names.drop n := by
  rw [segmentsAfter, filter_trimTail, filter_dropWhile_not_isName, filter_dropNames, names]

theorem slash_notMem_segmentsAfter {n : Nat} {p : Path} {s : Bytes} (h : s ∈ segmentsAfter n p) :
    slash ∉ s := by
  have hdropped := (isPrefix_trimTail _).subset h
  have hsegments :=
    (dropNames_suffix n p.segments).subset ((List.dropWhile_suffix _).subset hdropped)
  exact slash_notMem_of_mem_segments hsegments

/-- If anything is left, it starts with a name. -/
theorem isName_of_segmentsAfter {n : Nat} {p : Path} {s : Bytes} {rest : List Bytes}
    (h : segmentsAfter n p = s :: rest) : isName s = true := by
  obtain ⟨tail, htail⟩ := isPrefix_trimTail ((dropNames n p.segments).dropWhile (!isName ·))
  rw [segmentsAfter] at h
  rw [h, List.cons_append] at htail
  have hhead := List.head?_dropWhile_not (!isName ·) (dropNames n p.segments)
  rw [← htail] at hhead
  simpa using hhead

variable {stem p : Path}

theorem remainder_eq (h : stem.components ≠ []) :
    remainder stem p = ofSegments (segmentsAfter stem.names.length p) := by
  rw [remainder, if_neg (mt List.isEmpty_iff.1 h)]
  rfl

theorem names_remainder (h : stem.components ≠ []) :
    (remainder stem p).names = p.names.drop stem.names.length := by
  rw [remainder_eq h, names_ofSegments fun s hs => slash_notMem_segmentsAfter hs,
    filter_segmentsAfter]

theorem isAbsolute_iff : p.isAbsolute = true ↔ ∃ q, p = slash :: q := by
  cases p with
  | nil => exact iff_of_false nofun nofun
  | cons b q => simp [isAbsolute]

theorem segments_slash_cons (q : Path) : segments (slash :: q) = [] :: q.segments :=
  segments_append_slash [] q

/-- A path that starts with a name has neither a root nor a leading dot. -/
theorem anchor_eq_nil {s : Bytes} {rest : List Bytes} (h : p.segments = s :: rest)
    (hs : isName s = true) : p.isAbsolute = false ∧ p.anchor = [] := by
  have hrelative : p.isAbsolute = false := by
    rw [Bool.eq_false_iff]
    intro habsolute
    obtain ⟨q, rfl⟩ := isAbsolute_iff.1 habsolute
    rw [segments_slash_cons, List.cons.injEq] at h
    rw [← h.1] at hs
    exact absurd hs (by decide)
  refine ⟨hrelative, ?_⟩
  have hnames : s ≠ here := by
    rintro rfl
    exact absurd hs (by decide)
  rw [anchor, hrelative, h]
  simp [hnames]

theorem anchor_remainder (h : stem.components ≠ []) :
    (remainder stem p).isAbsolute = false ∧ (remainder stem p).anchor = [] := by
  rw [remainder_eq h]
  cases hleft : segmentsAfter stem.names.length p with
  | nil => exact ⟨rfl, rfl⟩
  | cons s rest =>
      have hsegments : (ofSegments (s :: rest)).segments = s :: rest := by
        refine segments_ofSegments (fun s' hs' => ?_) (List.cons_ne_nil s rest)
        rw [← hleft] at hs'
        exact slash_notMem_segmentsAfter hs'
      exact anchor_eq_nil hsegments (isName_of_segmentsAfter hleft)

theorem anchor_append_slash {dir : Path} (h : dir ≠ []) (q : Path) :
    anchor (dir ++ slash :: q) = dir.anchor := by
  obtain ⟨b, rest, rfl⟩ := List.exists_cons_of_ne_nil h
  obtain ⟨first, segments', hsegments⟩ := List.exists_cons_of_ne_nil (segments_ne_nil (b :: rest))
  have hhead : (segments (b :: rest ++ slash :: q)).head? = (segments (b :: rest)).head? := by
    rw [segments_append_slash, hsegments, List.cons_append, List.head?_cons, List.head?_cons]
  unfold anchor
  rw [hhead]
  rfl

/-- A relative path is joined behind one slash, or behind nothing. -/
theorem join_cases {dir below : Path} (h : below.isAbsolute = false) :
    (dir = [] ∧ dir.join below = below) ∨
      (∃ front, dir = front ++ [slash] ∧ dir.join below = front ++ slash :: below) ∨
        (dir ≠ [] ∧ dir.join below = dir ++ slash :: below) := by
  unfold join
  rw [h, if_neg Bool.false_ne_true]
  by_cases hempty : dir = []
  · rw [hempty]
    exact Or.inl ⟨rfl, rfl⟩
  · refine Or.inr ?_
    rcases hlast : dir.getLast? == some slash with _ | _
    · rw [if_neg (by simp [hempty])]
      exact Or.inr ⟨hempty, rfl⟩
    · rw [if_pos (by simp)]
      obtain ⟨front, hfront⟩ := List.getLast?_eq_some_iff.1 (beq_iff_eq.1 hlast)
      refine Or.inl ⟨front, hfront, ?_⟩
      rw [hfront, List.append_assoc]
      rfl

theorem names_join {dir below : Path} (h : below.isAbsolute = false) :
    (dir.join below).names = dir.names ++ below.names := by
  rcases join_cases h with ⟨hdir, hjoin⟩ | ⟨front, hdir, hjoin⟩ | ⟨-, hjoin⟩
  · rw [hjoin, hdir]
    rfl
  · rw [hjoin, names_append_slash, hdir, names_append_slash, names_nil, List.append_nil]
  · rw [hjoin, names_append_slash]

theorem anchor_join {dir below : Path} (h : below.isAbsolute = false)
    (hanchor : below.anchor = []) : (dir.join below).anchor = dir.anchor := by
  rcases join_cases h with ⟨hdir, hjoin⟩ | ⟨front, hdir, hjoin⟩ | ⟨hdir, hjoin⟩
  · rw [hjoin, hdir, hanchor]
    rfl
  · rw [hjoin, hdir]
    by_cases hfront : front = []
    · rw [hfront]
      rfl
    · rw [anchor_append_slash hfront, anchor_append_slash hfront]
  · rw [hjoin, anchor_append_slash hdir]

theorem isAbsolute_iff_anchor : p.isAbsolute = true ↔ p.anchor = [.root] := by
  unfold anchor
  by_cases h : p.isAbsolute = true
  · rw [if_pos h]
    exact iff_of_true h rfl
  · rw [if_neg h]
    refine iff_of_false h ?_
    split <;> nofun

theorem components_of_isAbsolute (h : p.isAbsolute = true) :
    p.components = .root :: p.names.map .name := by
  rw [components, isAbsolute_iff_anchor.1 h]
  rfl

theorem components_ne_nil (h : p.isAbsolute = true) : p.components ≠ [] := by
  rw [components_of_isAbsolute h]
  exact List.cons_ne_nil _ _

theorem name_injective : Function.Injective Component.name :=
  fun _ _ h => Component.name.inj h

theorem anchor_cases (p : Path) : p.anchor = [] ∨ p.anchor = [.root] ∨ p.anchor = [.here] := by
  unfold anchor
  split
  · exact Or.inr (Or.inl rfl)
  · split
    · exact Or.inr (Or.inr rfl)
    · exact Or.inl rfl

/-- The anchor of a path with a given first component. -/
def anchorOf : Component → List Component
  | .name _ => []
  | first => [first]

/-- All components after the first are names. -/
theorem anchor_of_components {first : Component} {rest : List Component}
    (h : p.components = first :: rest) : p.anchor = anchorOf first := by
  unfold components at h
  rcases anchor_cases p with hanchor | hanchor | hanchor
  · rw [hanchor, List.nil_append, List.map_eq_cons_iff] at h
    obtain ⟨segment, _, -, rfl, -⟩ := h
    exact hanchor
  · rw [hanchor, List.singleton_append, List.cons.injEq] at h
    obtain ⟨rfl, -⟩ := h
    exact hanchor
  · rw [hanchor, List.singleton_append, List.cons.injEq] at h
    obtain ⟨rfl, -⟩ := h
    exact hanchor

theorem anchor_eq_of_prefix (hne : stem.components ≠ [])
    (h : stem.components <+: p.components) : p.anchor = stem.anchor := by
  obtain ⟨first, rest, hstem⟩ := List.exists_cons_of_ne_nil hne
  obtain ⟨tail, htail⟩ := h
  rw [hstem, List.cons_append] at htail
  rw [anchor_of_components hstem, anchor_of_components htail.symm]

/-- What follows the components of a path that has some are names. -/
theorem components_eq_append_iff (hne : stem.components ≠ []) {rest : List Bytes} :
    p.components = stem.components ++ rest.map .name ↔
      p.anchor = stem.anchor ∧ p.names = stem.names ++ rest := by
  constructor
  · intro h
    have hanchor := anchor_eq_of_prefix hne ⟨_, h.symm⟩
    rw [components, components, hanchor, List.append_assoc, List.append_cancel_left_eq,
      ← List.map_append] at h
    exact ⟨hanchor, name_injective.list_map h⟩
  · rintro ⟨hanchor, hnames⟩
    rw [components, components, hanchor, hnames, List.map_append, List.append_assoc]

theorem components_prefix_iff (hne : stem.components ≠ []) :
    stem.components <+: p.components ↔
      ∃ rest : List Bytes, p.components = stem.components ++ rest.map .name := by
  constructor
  · intro h
    have hanchor := anchor_eq_of_prefix hne h
    rw [components, components, hanchor, List.prefix_append_right_inj,
      List.prefix_map_iff_of_injective name_injective] at h
    obtain ⟨rest, hrest⟩ := h
    exact ⟨rest, (components_eq_append_iff hne).2 ⟨hanchor, hrest.symm⟩⟩
  · rintro ⟨rest, hrest⟩
    exact ⟨_, hrest.symm⟩

end Path

namespace GroupMount

variable {mount : GroupMount} {group : Path}

/-- A group outside the mounted part, by its components, has no directory. -/
theorem resolve_eq_none_iff :
    mount.resolve group = none ↔ ¬mount.root.components <+: group.components := by
  unfold resolve Path.strip?
  by_cases h : mount.root.components <+: group.components
  · rw [if_pos (List.isPrefixOf_iff_prefix.2 h)]
    exact iff_of_false nofun (not_not_intro h)
  · rw [if_neg (mt List.isPrefixOf_iff_prefix.1 h)]
    exact iff_of_true rfl h

/-- The directory of a group has the names of the mount point and then those of the group below
the mounted part. -/
theorem resolve_of_components (hroot : mount.root.components ≠ [])
    (h : mount.root.components <+: group.components) :
    ∃ dir, mount.resolve group = some dir ∧ dir.anchor = mount.mountPoint.anchor ∧
      dir.names = mount.mountPoint.names ++ group.names.drop mount.root.names.length := by
  have hstrip : Path.strip? mount.root group = some (Path.remainder mount.root group) := by
    rw [Path.strip?, if_pos (List.isPrefixOf_iff_prefix.2 h)]
  obtain ⟨hrelative, hanchor⟩ := Path.anchor_remainder (p := group) hroot
  have hnames := Path.names_remainder (p := group) hroot
  unfold resolve
  rw [hstrip, Option.map_some]
  generalize Path.remainder mount.root group = below at hrelative hanchor hnames ⊢
  cases below with
  | nil =>
      refine ⟨mount.mountPoint, rfl, rfl, ?_⟩
      rw [← hnames, Path.names_nil, List.append_nil]
  | cons b below =>
      refine ⟨_, rfl, Path.anchor_join hrelative hanchor, ?_⟩
      rw [← hnames]
      exact Path.names_join hrelative

theorem resolve_of_rest (hroot : mount.root.components ≠ []) {rest : List Bytes}
    (h : group.components = mount.root.components ++ rest.map .name) :
    ∃ dir, mount.resolve group = some dir ∧
      dir.components = mount.mountPoint.components ++ rest.map .name ∧
        dir.names = mount.mountPoint.names ++ rest := by
  obtain ⟨dir, hdir, hanchor, hnames⟩ :=
    resolve_of_components hroot ((Path.components_prefix_iff hroot).2 ⟨rest, h⟩)
  rw [((Path.components_eq_append_iff hroot).1 h).2, List.drop_left] at hnames
  refine ⟨dir, hdir, ?_, hnames⟩
  rw [Path.components, hanchor, hnames, List.map_append, ← List.append_assoc]
  rfl

theorem resolve_eq_none (hroot : mount.root.components ≠ [])
    (h : ∀ rest : List Bytes, group.components ≠ mount.root.components ++ rest.map .name) :
    mount.resolve group = none := by
  rw [resolve_eq_none_iff, Path.components_prefix_iff hroot]
  rintro ⟨rest, hrest⟩
  exact h rest hrest

end GroupMount

end ResourceMetrics
