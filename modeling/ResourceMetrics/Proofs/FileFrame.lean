import ResourceMetrics.Sources
import ResourceMetrics.Proofs.PathComponents

/-! Trees that are the same but for some places. Where a path leads is told from its segments and
the directory that it starts in; the tree only decides whether it gets there. So a path leads to the
same in both trees, unless it comes to one of the places; there it ends or is lost, if no directory
is at the place. -/

namespace ResourceMetrics

namespace Path

/-- A segment that leads on to what a directory holds. -/
def IsStep (s : Bytes) : Prop := isName s = true ∧ s ≠ parent

instance (s : Bytes) : Decidable (IsStep s) := inferInstanceAs (Decidable (_ ∧ _))

/-- Where one segment leads, if it leads anywhere. -/
def next (location : Location) (s : Bytes) : Location :=
  if !isName s then location else if s = parent then location.dropLast else location ++ [s]

/-- The location that a path leads to, if it leads to one. -/
def location (directory : Location) (p : Path) : Location :=
  p.segments.foldl next (p.origin directory)

/-- On its way a path comes to a location. -/
def Passes (directory : Location) (p : Path) (location : Location) : Prop :=
  ∃ front, front <+: p.segments ∧ front.foldl next (p.origin directory) = location

theorem next_of_isStep {s : Bytes} (hs : IsStep s) (location : Location) :
    next location s = location ++ [s] := by
  rw [next, if_neg (by simp [hs.1]), if_neg hs.2]

theorem foldl_next_of_isStep {ss : List Bytes} (hss : ∀ s ∈ ss, IsStep s) (start : Location) :
    ss.foldl next start = start ++ ss := by
  induction ss generalizing start with
  | nil => exact (List.append_nil start).symm
  | cons s ss ih =>
      obtain ⟨hs, hss⟩ := List.forall_mem_cons.1 hss
      rw [List.foldl_cons, ih hss, next_of_isStep hs, List.append_assoc]
      rfl

theorem origin_congr {p q : Path} (h : p.isAbsolute = q.isAbsolute) (directory : Location) :
    p.origin directory = q.origin directory := by
  rw [origin, origin, h]

end Path

namespace FileTree

open ResourceMetrics.Path

variable {tree : FileTree} {start place : Location} {s : Bytes}

theorem follow_append (tree : FileTree) (front rest : List Bytes) (start : Location) :
    tree.follow start (front ++ rest) =
      (tree.follow start front).bind fun place => tree.follow place rest := by
  induction front generalizing start with
  | nil => rfl
  | cons s front ih =>
      simp only [List.cons_append, follow]
      split
      · rfl
      · rfl
      · split
        · exact ih _
        · split
          · exact ih _
          · split
            · rfl
            · split
              · rfl
              · exact ih _

theorem follow_singleton (h : tree.follow start [s] = .ok place) : place = next start s := by
  simp only [follow] at h
  rw [next]
  split at h
  · cases h
  · cases h
  · split at h
    · rename_i hname
      rw [if_pos hname]
      exact (Except.ok.inj h).symm
    · rename_i hname
      rw [if_neg hname]
      split at h
      · rename_i hparent
        rw [if_pos hparent]
        exact (Except.ok.inj h).symm
      · rename_i hparent
        rw [if_neg hparent]
        split at h
        · cases h
        · split at h
          · cases h
          · exact (Except.ok.inj h).symm

/-- Segments lead where they lead in every tree, if they lead anywhere. -/
theorem follow_eq_foldl (segments : List Bytes) (h : tree.follow start segments = .ok place) :
    place = segments.foldl next start := by
  induction segments generalizing start with
  | nil => exact (Except.ok.inj h).symm
  | cons s rest ih =>
      rw [← List.singleton_append, follow_append] at h
      cases hs : tree.follow start [s] with
      | error cause =>
          rw [hs] at h
          cases h
      | ok middle =>
          rw [hs] at h
          rw [List.foldl_cons, ← follow_singleton hs]
          exact ih h

theorem find_eq_location {p : Path} (h : tree.find p = .ok place) :
    place = p.location tree.directory := by
  unfold find at h
  split at h
  · cases h
  · split at h
    · cases h
    · split at h
      · cases h
      · exact follow_eq_foldl p.segments h

/-- Nothing is found behind what is not a directory. -/
theorem follow_blocked {front rest : List Bytes} (hs : IsStep s)
    (hplace : tree.entry? (front.foldl next start ++ [s]) ≠ some .directory) (hrest : rest ≠ []) :
    ∃ cause, tree.follow start (front ++ s :: rest) = .error cause := by
  rw [follow_append]
  cases hfollow : tree.follow start front with
  | error cause => exact ⟨cause, rfl⟩
  | ok location =>
      obtain rfl := follow_eq_foldl front hfollow
      generalize front.foldl next start = location at hplace
      rw [← List.singleton_append]
      change ∃ cause, tree.follow location ([s] ++ rest) = .error cause
      rw [follow_append]
      cases hstep : tree.follow location [s] with
      | error cause => exact ⟨cause, rfl⟩
      | ok place =>
          obtain rfl := (follow_singleton hstep).trans (next_of_isStep hs location)
          obtain ⟨s', rest, rfl⟩ := List.exists_cons_of_ne_nil hrest
          change ∃ cause, tree.follow (location ++ [s]) (s' :: rest) = .error cause
          rw [follow]
          cases hentry : tree.entry? (location ++ [s]) with
          | none => exact ⟨.notFound, rfl⟩
          | some entry =>
              cases entry with
              | file contents => exact ⟨.notADirectory, rfl⟩
              | directory => exact absurd hentry hplace

/-- Two trees have the same directories and the same files, whatever is in the files. -/
structure SameShape (t t' : FileTree) : Prop where
  directory : t.directory = t'.directory
  entry : ∀ location,
    (t.entry? location).map Entry.isDirectory = (t'.entry? location).map Entry.isDirectory

theorem isDirectory_of_find {p : Path} (h : tree.find p = .ok place) :
    tree.isDirectory p = ((tree.entry? place).map Entry.isDirectory).getD false := by
  unfold FileTree.isDirectory openFile
  rw [h]
  dsimp only
  cases tree.entry? place with
  | none => rfl
  | some entry => rfl

section SameShape

variable {t t' : FileTree} (h : SameShape t t')

include h

theorem SameShape.isNone_entry? (location : Location) :
    (t.entry? location).isNone = (t'.entry? location).isNone := by
  have hmap := congrArg Option.isNone (h.entry location)
  rw [Option.isNone_map, Option.isNone_map] at hmap
  exact hmap

theorem SameShape.follow (segments : List Bytes) (start : Location) :
    t.follow start segments = t'.follow start segments := by
  induction segments generalizing start with
  | nil => rfl
  | cons s rest ih => simp only [FileTree.follow, h.entry start, h.isNone_entry?, ih]

theorem SameShape.find (p : Path) : t.find p = t'.find p := by
  unfold FileTree.find
  rw [h.follow, h.directory]

theorem SameShape.isDirectory (p : Path) : t.isDirectory p = t'.isDirectory p := by
  have hfind' := h.find p
  cases hfind : t.find p with
  | error cause =>
      rw [hfind] at hfind'
      simp only [FileTree.isDirectory, openFile, hfind, ← hfind']
  | ok location =>
      rw [hfind] at hfind'
      rw [isDirectory_of_find hfind, isDirectory_of_find hfind'.symm, h.entry location]

end SameShape

/-- Neither one of some places nor below one. -/
def Off (places : List Location) (location : Location) : Bool :=
  places.all fun place => !place.isPrefixOf location

/-- Two trees have the same entries but for some places and what is below them. -/
structure AgreeOff (places : List Location) (t t' : FileTree) : Prop where
  directory : t.directory = t'.directory
  entries : t.entries.filter (Off places ·.1) = t'.entries.filter (Off places ·.1)

variable {t t' : FileTree} {places : List Location}

theorem off_iff {location : Location} :
    Off places location = true ↔ ∀ place ∈ places, ¬place <+: location := by
  simp [Off, ← List.isPrefixOf_iff_prefix]

theorem off_dropLast {location : Location} (h : Off places location = true) :
    Off places location.dropLast = true :=
  off_iff.2 fun place hplace hbelow =>
    off_iff.1 h place hplace (hbelow.trans (List.dropLast_prefix location))

/-- One more name comes to a place itself or stays off all. -/
theorem off_concat {location : Location} (h : Off places location = true) {s : Bytes}
    (hs : location ++ [s] ∉ places) : Off places (location ++ [s]) = true := by
  refine off_iff.2 fun place hplace hbelow => ?_
  rcases List.prefix_concat_iff.1 hbelow with heq | hbelow
  · exact hs (heq ▸ hplace)
  · exact off_iff.1 h place hplace hbelow

theorem lookup_filter_off {location : Location} (h : Off places location = true)
    (entries : List (Location × Entry)) :
    (entries.filter (Off places ·.1)).lookup location = entries.lookup location := by
  induction entries with
  | nil => rfl
  | cons e rest ih =>
      obtain ⟨l, entry⟩ := e
      by_cases hl : Off places l = true
      · rw [List.filter_cons, if_pos hl, List.lookup_cons, List.lookup_cons, ih]
      · have hne : (location == l) = false := by
          rw [beq_eq_false_iff_ne]
          rintro rfl
          exact hl h
        rw [List.filter_cons, if_neg hl, List.lookup_cons, hne, ih]

/-- What is in a directory off the places is off them too, unless one of them is in it. -/
theorem filterMap_children {location : Location} (h : Off places location = true)
    (hplaces : ∀ place ∈ places, place.dropLast ≠ location) (entries : List (Location × Entry)) :
    (entries.filterMap fun e =>
        if e.1.isEmpty || e.1.dropLast != location then none else e.1.getLast?) =
      (entries.filter (Off places ·.1)).filterMap fun e =>
        if e.1.isEmpty || e.1.dropLast != location then none else e.1.getLast? := by
  rw [List.filterMap_filter]
  refine List.filterMap_congr fun e _ => ?_
  split
  · simp
  · rename_i hchild
    rw [if_pos]
    simp only [Bool.or_eq_true, List.isEmpty_iff, bne_iff_ne, not_or, Decidable.not_not] at hchild
    obtain ⟨hne, hdrop⟩ := hchild
    rw [← List.dropLast_append_getLast hne, hdrop]
    refine off_concat h fun hmem => hplaces _ hmem ?_
    rw [List.dropLast_concat]

theorem AgreeOff.entry? (h : AgreeOff places t t') {location : Location}
    (hoff : Off places location = true) : t.entry? location = t'.entry? location := by
  unfold FileTree.entry?
  rw [← lookup_filter_off hoff t.entries, ← lookup_filter_off hoff t'.entries, h.entries]

theorem off_next {location : Location} (h : Off places location = true) {s : Bytes}
    (hs : location ++ [s] ∉ places) : Off places (next location s) = true := by
  rw [next]
  split
  · exact h
  · split
    · exact off_dropLast h
    · exact off_concat h hs

/-- Segments come to the same in both trees, unless one of them is the name of a place. -/
theorem AgreeOff.follow (h : AgreeOff places t t') (segments : List Bytes) {start : Location}
    (hstart : Off places start = true) :
    (t.follow start segments = t'.follow start segments ∧
        ∀ place, t.follow start segments = .ok place → Off places place = true) ∨
      ∃ front s rest, segments = front ++ s :: rest ∧ front.foldl next start ++ [s] ∈ places := by
  induction segments generalizing start with
  | nil =>
      refine Or.inl ⟨rfl, fun place hplace => ?_⟩
      exact Except.ok.inj hplace ▸ hstart
  | cons s rest ih =>
      by_cases hplace : start ++ [s] ∈ places
      · exact Or.inr ⟨[], s, rest, rfl, hplace⟩
      · have hstep : t.follow start [s] = t'.follow start [s] := by
          simp only [FileTree.follow, h.entry? hstart, h.entry? (off_concat hstart hplace)]
        rw [← List.singleton_append, follow_append, follow_append, ← hstep]
        cases hfollow : t.follow start [s] with
        | error cause => exact Or.inl ⟨rfl, nofun⟩
        | ok place =>
            obtain rfl := follow_singleton hfollow
            rcases ih (off_next hstart hplace) with hsame | ⟨front, s', rest, rfl, hmem⟩
            · exact Or.inl hsame
            · exact Or.inr ⟨s :: front, s', rest, rfl, hmem⟩

end FileTree

namespace Path

/-- A path goes on from another one, by segments that are none of some reserved names. -/
structure Extends (reserved : List Bytes) (root p : Path) : Prop where
  isAbsolute : p.isAbsolute = root.isAbsolute
  segments : ∃ front suffix, front <+: root.segments ∧ p.segments = front ++ suffix ∧
    ∀ s ∈ suffix, s ∉ reserved

variable {reserved : List Bytes} {root p q : Path}

theorem Extends.refl (reserved : List Bytes) (root : Path) : Extends reserved root root :=
  ⟨rfl, root.segments, [], List.prefix_rfl, (List.append_nil _).symm, nofun⟩

/-- A relative path is read behind what is left of the other one without a slash at its end. -/
theorem segments_join (h : q.isAbsolute = false) :
    (p.join q).isAbsolute = p.isAbsolute ∧
      ∃ front, front <+: p.segments ∧ (p.join q).segments = front ++ q.segments := by
  rcases join_cases h with ⟨hp, hjoin⟩ | ⟨front, hp, hjoin⟩ | ⟨hp, hjoin⟩
  · refine ⟨?_, [], List.nil_prefix, by rw [hjoin, List.nil_append]⟩
    rw [hjoin, h, hp]
    rfl
  · refine ⟨?_, front.segments, ?_, by rw [hjoin, segments_append_slash]⟩
    · rw [hjoin, hp]
      cases front with
      | nil => rfl
      | cons b front => rfl
    · rw [hp, segments_append_slash]
      exact List.prefix_append _ _
  · refine ⟨?_, p.segments, List.prefix_rfl, by rw [hjoin, segments_append_slash]⟩
    obtain ⟨b, rest, rfl⟩ := List.exists_cons_of_ne_nil hp
    rw [hjoin]
    rfl

/-- The location that a joined path leads to ends in the names of its second part. -/
theorem location_join (hq : q.isAbsolute = false) (hsteps : ∀ s ∈ q.segments, IsStep s)
    (directory : Location) : ∃ parent, (p.join q).location directory = parent ++ q.segments := by
  obtain ⟨-, front, -, hjoin⟩ := segments_join (p := p) hq
  rw [location, hjoin, List.foldl_append, foldl_next_of_isStep hsteps]
  exact ⟨_, rfl⟩

theorem Extends.join (hp : Extends reserved root p) (hq : q.isAbsolute = false)
    (hnames : ∀ s ∈ q.segments, s ∉ reserved) : Extends reserved root (p.join q) := by
  obtain ⟨habsolute, front', hfront', hjoin⟩ := segments_join (p := p) hq
  obtain ⟨front, suffix, hfront, hsegments, hsuffix⟩ := hp.segments
  refine ⟨habsolute.trans hp.isAbsolute, ?_⟩
  rw [hsegments] at hfront'
  obtain ⟨rest, hrest⟩ := hfront'
  rcases List.append_eq_append_iff.1 hrest with ⟨more, hmore, -⟩ | ⟨more, hmore, hsplit⟩
  · refine ⟨front', q.segments, ?_, hjoin, hnames⟩
    exact (hmore ▸ List.prefix_append front' more).trans hfront
  · refine ⟨front, more ++ q.segments, hfront, ?_, ?_⟩
    · rw [hjoin, hmore, List.append_assoc]
    · intro s hs
      rcases List.mem_append.1 hs with hs | hs
      · exact hsuffix s (hsplit ▸ List.mem_append_left _ hs)
      · exact hnames s hs

/-- What is not in the second part of a list stands in the first. -/
theorem exists_of_append_eq {before rest front suffix : List Bytes} {s : Bytes}
    (h : before ++ s :: rest = front ++ suffix) (hs : s ∉ suffix) :
    ∃ mid, front = before ++ s :: mid ∧ rest = mid ++ suffix := by
  rcases List.append_eq_append_iff.1 h with ⟨more, hfront, hmore⟩ | ⟨more, -, hsuffix⟩
  · cases more with
    | nil =>
        rw [List.nil_append] at hmore
        exact absurd (hmore ▸ List.mem_cons_self) hs
    | cons s' mid =>
        obtain ⟨rfl, hrest⟩ := List.cons.inj hmore
        exact ⟨mid, hfront, hrest⟩
  · exact absurd (hsuffix ▸ List.mem_append_right _ List.mem_cons_self) hs

/-- Where a path that goes on from another comes to a reserved name, the other comes to it too. -/
theorem Extends.passes (h : Extends reserved root p) {before rest : List Bytes} {s : Bytes}
    (hsplit : p.segments = before ++ s :: rest) (hreserved : s ∈ reserved) (hs : IsStep s)
    (directory : Location) :
    root.Passes directory (before.foldl next (p.origin directory) ++ [s]) := by
  obtain ⟨front, suffix, hfront, hsegments, hsuffix⟩ := h.segments
  obtain ⟨mid, hmid, -⟩ := exists_of_append_eq (hsplit.symm.trans hsegments)
    fun hs => hsuffix s hs hreserved
  refine ⟨before ++ [s], ?_, ?_⟩
  · rw [hmid, List.append_cons] at hfront
    exact (List.prefix_append _ mid).trans hfront
  · rw [List.foldl_append, ← origin_congr h.isAbsolute]
    exact next_of_isStep hs _

end Path

namespace FileTree

open ResourceMetrics.Path

/-- What two trees have to do with each other so that paths from some roots lead to the same: they
agree but for some places with reserved names, below which no root starts, and where a root comes to
a place no directory is. -/
structure SameFrom (reserved : List Bytes) (places : List Location) (roots : List Path)
    (t t' : FileTree) : Prop where
  agree : AgreeOff places t t'
  named : ∀ place ∈ places, ∃ front name, place = front ++ [name] ∧ name ∈ reserved ∧ IsStep name
  apart : ∀ root ∈ roots, Off places (root.origin t.directory) = true
  passed : ∀ root ∈ roots, ∀ place ∈ places, root.Passes t.directory place →
    t.entry? place ≠ some .directory ∧ t'.entry? place ≠ some .directory

namespace SameFrom

variable {t t' : FileTree} {reserved : List Bytes} {places : List Location} {roots : List Path}
  {root p q : Path}

/-- A path that goes on from a root leads to the same in both trees, or nowhere in either. -/
theorem find (h : SameFrom reserved places roots t t') (hroot : root ∈ roots)
    (hp : Extends reserved root p) (hq : q.isAbsolute = false)
    (hnames : ∀ s ∈ q.segments, s ∉ reserved) :
    (t.find (p.join q) = t'.find (p.join q) ∧
        ∀ place, t.find (p.join q) = .ok place → Off places place = true) ∨
      ((∃ cause, t.find (p.join q) = .error cause) ∧
        ∃ cause, t'.find (p.join q) = .error cause) := by
  have hextends := hp.join hq hnames
  have hstart : Off places ((p.join q).origin t.directory) = true :=
    origin_congr hextends.isAbsolute t.directory ▸ h.apart root hroot
  unfold FileTree.find
  rw [← h.agree.directory]
  split
  · exact Or.inl ⟨rfl, nofun⟩
  · split
    · exact Or.inl ⟨rfl, nofun⟩
    · split
      · exact Or.inl ⟨rfl, nofun⟩
      · rcases h.agree.follow (p.join q).segments hstart with hsame |
          ⟨before, s, rest, hsplit, hmem⟩
        · exact Or.inl hsame
        · -- The name of the place is in the root, and no directory is there.
          obtain ⟨parent, name, hplace, hreserved, hstep⟩ := h.named _ hmem
          obtain rfl := List.singleton_inj.1 (List.append_inj_right' hplace rfl)
          obtain ⟨-, front, -, hjoin⟩ := segments_join (p := p) hq
          obtain ⟨mid, -, hrest⟩ := exists_of_append_eq (hsplit.symm.trans hjoin)
            fun hs => hnames s hs hreserved
          have hne : rest ≠ [] := hrest ▸ List.append_ne_nil_of_right_ne_nil mid (segments_ne_nil q)
          obtain ⟨ht, ht'⟩ := h.passed root hroot _ hmem
            (hextends.passes hsplit hreserved hstep t.directory)
          rw [hsplit]
          exact Or.inr ⟨follow_blocked hstep ht hne, follow_blocked hstep ht' hne⟩

/-- The same is opened in both trees, or nothing in either. -/
theorem openFile (h : SameFrom reserved places roots t t') (hroot : root ∈ roots)
    (hp : Extends reserved root p) (hq : q.isAbsolute = false)
    (hnames : ∀ s ∈ q.segments, s ∉ reserved) :
    t.openFile (p.join q) = t'.openFile (p.join q) ∨
      ((∃ cause, t.openFile (p.join q) = .error cause) ∧
        ∃ cause, t'.openFile (p.join q) = .error cause) := by
  unfold FileTree.openFile
  rcases h.find hroot hp hq hnames with ⟨hsame, hoff⟩ | ⟨⟨cause, ht⟩, cause', ht'⟩
  · refine Or.inl ?_
    rw [← hsame]
    cases hfind : t.find (p.join q) with
    | error cause => rfl
    | ok location =>
        dsimp only
        rw [h.agree.entry? (hoff location hfind)]
  · rw [ht, ht']
    exact Or.inr ⟨⟨cause, rfl⟩, cause', rfl⟩

/-- What is parsed in one tree is parsed in the other, and an error is the same one, unless the file
cannot be opened in either. -/
theorem parse {ε β : Type} (h : SameFrom reserved places roots t t') (hroot : root ∈ roots)
    (hp : Extends reserved root p) (hq : q.isAbsolute = false)
    (hnames : ∀ s ∈ q.segments, s ∉ reserved) (format : Bytes → Except ε β) :
    t.parse (p.join q) format = t'.parse (p.join q) format ∨
      ((∃ cause, t.parse (p.join q) format = .error (.opening (p.join q) cause)) ∧
        ∃ cause, t'.parse (p.join q) format = .error (.opening (p.join q) cause)) := by
  unfold FileTree.parse
  rcases h.openFile hroot hp hq hnames with hsame | ⟨⟨cause, ht⟩, cause', ht'⟩
  · rw [hsame]
    exact Or.inl rfl
  · rw [ht, ht']
    exact Or.inr ⟨⟨cause, rfl⟩, cause', rfl⟩

theorem available_parse {ε β : Type} (h : SameFrom reserved places roots t t')
    (hroot : root ∈ roots) (hp : Extends reserved root p) (hq : q.isAbsolute = false)
    (hnames : ∀ s ∈ q.segments, s ∉ reserved) (format : Bytes → Except ε β) :
    available (t.parse (p.join q) format) = available (t'.parse (p.join q) format) := by
  rcases h.parse hroot hp hq hnames format with hsame | ⟨⟨cause, ht⟩, cause', ht'⟩
  · rw [hsame]
  · rw [ht, ht']
    rfl

/-- A directory that none of the places is in lists the same. -/
theorem available_list (h : SameFrom reserved places roots t t') (hroot : root ∈ roots)
    (hp : Extends reserved root p) (hq : q.isAbsolute = false)
    (hnames : ∀ s ∈ q.segments, s ∉ reserved)
    (hchildren : ∀ place ∈ places, (p.join q).location t.directory ≠ place.dropLast) :
    available (t.list (p.join q)) = available (t'.list (p.join q)) := by
  unfold FileTree.list
  rcases h.find hroot hp hq hnames with ⟨hsame, hoff⟩ | ⟨⟨cause, ht⟩, cause', ht'⟩
  · rw [← hsame]
    cases hfind : t.find (p.join q) with
    | error cause => rfl
    | ok location =>
        have hlocation := hoff location hfind
        have hnot : ∀ place ∈ places, place.dropLast ≠ location := fun place hplace hdrop =>
          hchildren place hplace (by rw [← find_eq_location hfind, hdrop])
        dsimp only
        rw [← h.agree.entry? hlocation, filterMap_children hlocation hnot t.entries,
          filterMap_children hlocation hnot t'.entries, h.agree.entries]
  · rw [ht, ht']
    rfl

end SameFrom

end FileTree

end ResourceMetrics
