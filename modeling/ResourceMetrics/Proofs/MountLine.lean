import ResourceMetrics.MountEntry
import ResourceMetrics.Numeral
import ResourceMetrics.Proofs.EscapedPath

/-! The lines of a mount table, from what is recorded of a mount to the line and back. The fields
stand between single spaces, the root and the mount point are escaped, a lone dash ends the optional
fields. A line is split at every blank but the writer escapes only four characters, so a line is
read as its mount was recorded exactly if no blank was left as it stood. -/

namespace ResourceMetrics

/-- A field that is written as it stands. -/
structure PlainField where
  text : Text
  ne_nil : text ≠ []
  no_blank : ∀ c ∈ text, isBlank c = false

/-- A field that may stand before the lone dash. -/
structure FrontField extends PlainField where
  ne_dash : text ≠ ['-']

structure RootedPath where
  text : Text
  rooted : text.head? = some '/'

theorem isBlank_of_visible {c : Char} (h : 0x20 < c.toNat) (h' : c.toNat < 0x85) :
    isBlank c = false := by
  simp only [isBlank, blankRanges, List.any_cons, List.any_nil, Bool.or_false,
    Bool.or_eq_false_iff, Bool.and_eq_false_iff, decide_eq_false_iff_not]
  omega

theorem Numeral.toNat_of_mem_write {n : Nat} {c : Char} (hc : c ∈ write n) :
    '0'.toNat ≤ c.toNat ∧ c.toNat ≤ '9'.toNat := by
  have hdigit : c.isDigit = true := Nat.isDigit_of_mem_toDigits (by decide) (by decide) hc
  obtain ⟨hzero, hnine⟩ := Bool.and_eq_true_iff.1 hdigit
  exact ⟨of_decide_eq_true hzero, of_decide_eq_true hnine⟩

theorem Numeral.isBlank_of_mem_write {n : Nat} {c : Char} (hc : c ∈ write n) :
    isBlank c = false := by
  obtain ⟨hzero, hnine⟩ := toNat_of_mem_write hc
  simp only [Char.reduceToNat] at hzero hnine
  exact isBlank_of_visible (by omega) (by omega)

namespace FrontField

def numeral (n : Nat) : FrontField where
  text := Numeral.write n
  ne_nil := Nat.toDigits_ne_nil
  no_blank _ := Numeral.isBlank_of_mem_write
  ne_dash h := by
    have hdash : '-' ∈ Numeral.write n := h ▸ List.mem_singleton_self '-'
    exact absurd (Numeral.toNat_of_mem_write hdash).1 (by decide)

/-- The major and the minor number of a device. -/
def device (major minor : Nat) : FrontField where
  text := Numeral.write major ++ ':' :: Numeral.write minor
  ne_nil := List.append_ne_nil_of_right_ne_nil _ (List.cons_ne_nil _ _)
  no_blank c hc := by
    rw [List.mem_append, List.mem_cons] at hc
    obtain hc | rfl | hc := hc
    · exact Numeral.isBlank_of_mem_write hc
    · decide
    · exact Numeral.isBlank_of_mem_write hc
  ne_dash h := by
    have hcolon : ':' ∈ ['-'] := h ▸ List.mem_append_right _ List.mem_cons_self
    exact absurd hcolon (by decide)

end FrontField

/-- What is recorded of a mount. -/
structure MountRecord where
  id : Nat
  parent : Nat
  major : Nat
  minor : Nat
  root : RootedPath
  mountPoint : RootedPath
  options : FrontField
  optional : List FrontField
  fsType : PlainField
  source : PlainField
  superOptions : PlainField

def spaced (fields : List Text) : Text := [' '].intercalate fields

namespace MountRecord

def identity (m : MountRecord) : List FrontField :=
  [.numeral m.id, .numeral m.parent, .device m.major m.minor]

def before (m : MountRecord) : List Text :=
  m.identity.map (·.text) ++
    MountEscape.write m.root.text :: MountEscape.write m.mountPoint.text ::
      (m.options :: m.optional).map (·.text)

def after (m : MountRecord) : List Text := [m.fsType.text, m.source.text, m.superOptions.text]

def line (m : MountRecord) : Text := spaced m.before ++ ' ' :: '-' :: ' ' :: spaced m.after

/-- What a reader is to find in the line. -/
def entry (m : MountRecord) : MountEntry := ⟨m.root.text, m.mountPoint.text, m.fsType.text⟩

end MountRecord

@[simp] theorem spaced_singleton (field : Text) : spaced [field] = field :=
  List.intercalate_singleton

theorem spaced_cons_cons (field next : Text) (more : List Text) :
    spaced (field :: next :: more) = field ++ ' ' :: spaced (next :: more) := by
  rw [spaced, List.intercalate_cons_cons, List.append_assoc, List.singleton_append, spaced]

theorem spaced_append_space (field : Text) (more : List Text) (rest : Text) :
    ∃ rest', spaced (field :: more) ++ ' ' :: rest = field ++ ' ' :: rest' := by
  cases more with
  | nil => exact ⟨rest, by rw [spaced_singleton]⟩
  | cons next more =>
    exact ⟨spaced (next :: more) ++ ' ' :: rest, by
      rw [spaced_cons_cons, List.append_assoc, List.cons_append]⟩

/-- A field that is passed over in the search for the separator. -/
structure Separable (field : Text) : Prop where
  no_space : ' ' ∉ field
  ne_dash : field ≠ ['-']

theorem Separable.append_ne {field : Text} (h : Separable field) (rest more : Text) :
    field ++ ' ' :: rest ≠ '-' :: ' ' :: more := by
  intro heq
  match field with
  | [] => exact absurd (List.cons.inj heq).1 (by decide)
  | [c] =>
    obtain ⟨rfl, -⟩ := List.cons.inj heq
    exact h.ne_dash rfl
  | c :: d :: _ =>
    obtain ⟨-, htail⟩ := List.cons.inj heq
    obtain ⟨rfl, -⟩ := List.cons.inj htail
    exact h.no_space (List.mem_cons_of_mem c List.mem_cons_self)

namespace MountEntry

theorem cutSeparator?_cons {c : Char} {cs : Text}
    (h : ∀ rest, c = ' ' → cs ≠ '-' :: ' ' :: rest) :
    cutSeparator? (c :: cs) = (cutSeparator? cs).map fun p => (c :: p.1, p.2) := by
  rw [cutSeparator?]
  exact h

theorem cutSeparator?_append {field : Text} (hspace : ' ' ∉ field) (rest : Text) :
    cutSeparator? (field ++ rest) =
      (cutSeparator? rest).map fun p => (field ++ p.1, p.2) := by
  induction field with
  | nil => exact Option.map_id'.symm
  | cons c cs ih =>
    have hc : c ≠ ' ' := fun hc => hspace (hc ▸ List.mem_cons_self)
    have hcs : ' ' ∉ cs := fun hcs => hspace (List.mem_cons_of_mem c hcs)
    rw [List.cons_append, cutSeparator?_cons fun _ h => absurd h hc, ih hcs, Option.map_map]
    rfl

/-- The separator of a line is found where it was written: every space before it is followed by a
field that is no lone dash. -/
theorem cutSeparator?_spaced {fields : List Text} (hne : fields ≠ [])
    (hfields : ∀ field ∈ fields, Separable field) (rest : Text) :
    cutSeparator? (spaced fields ++ ' ' :: '-' :: ' ' :: rest) = some (spaced fields, rest) := by
  induction fields with
  | nil => exact absurd rfl hne
  | cons field more ih =>
    obtain ⟨hfield, hmore⟩ := List.forall_mem_cons.1 hfields
    cases more with
    | nil =>
      rw [spaced_singleton, cutSeparator?_append hfield.no_space, cutSeparator?, Option.map_some,
        List.append_nil]
    | cons next more =>
      have hnext : Separable next := hmore next List.mem_cons_self
      obtain ⟨rest', hrest'⟩ := spaced_append_space next more ('-' :: ' ' :: rest)
      have hskip : cutSeparator? (' ' :: (spaced (next :: more) ++ ' ' :: '-' :: ' ' :: rest)) =
          some (' ' :: spaced (next :: more), rest) := by
        rw [cutSeparator?_cons fun _ _ => hrest' ▸ hnext.append_ne rest' _,
          ih (List.cons_ne_nil _ _) hmore, Option.map_some]
      rw [spaced_cons_cons, List.append_assoc, List.cons_append,
        cutSeparator?_append hfield.no_space, hskip, Option.map_some]

end MountEntry

namespace Text

theorem words_append_blank {c : Char} (hc : isBlank c = true) (t u : Text) :
    words (t ++ c :: u) = words t ++ words u := by
  rw [words, words, words, List.splitOnP_append_cons t u hc, List.filter_append]

theorem words_of_forall {t : Text} (hne : t ≠ []) (h : ∀ c ∈ t, isBlank c = false) :
    words t = [t] :=
  filter_splitOnP_of_forall hne h

theorem words_spaced (fields : List Text) : words (spaced fields) = fields.flatMap words := by
  match fields with
  | [] => rfl
  | [field] => rw [spaced_singleton, List.flatMap_singleton]
  | field :: next :: more =>
    rw [spaced_cons_cons, words_append_blank (by decide), words_spaced, ← List.flatMap_cons]

end Text

theorem PlainField.words (field : PlainField) : field.text.words = [field.text] :=
  Text.words_of_forall field.ne_nil field.no_blank

theorem FrontField.flatMap_words (fields : List FrontField) :
    (fields.map (·.text)).flatMap Text.words = fields.map (·.text) := by
  induction fields with
  | nil => rfl
  | cons field more ih =>
    rw [List.map_cons, List.flatMap_cons, ih, PlainField.words, List.singleton_append]

theorem FrontField.separable (field : FrontField) : Separable field.text where
  no_space h := absurd (field.no_blank ' ' h) (by decide)
  ne_dash := field.ne_dash

theorem RootedPath.ne_nil (path : RootedPath) : path.text ≠ [] := by
  intro h
  have hrooted : path.text.head? = some '/' := path.rooted
  rw [h] at hrooted
  cases hrooted

theorem RootedPath.separable (path : RootedPath) : Separable (MountEscape.write path.text) where
  no_space := MountEscape.space_notMem_write path.text
  ne_dash h := by
    obtain ⟨rest, hrest⟩ := List.head?_eq_some_iff.1 path.rooted
    rw [hrest] at h
    exact absurd (List.cons.inj h).1 (by decide)

namespace MountRecord

variable (m : MountRecord)

theorem separable_before : ∀ field ∈ m.before, Separable field := by
  have hplain (fields : List FrontField) : ∀ field ∈ fields.map (·.text), Separable field :=
    List.forall_mem_map.2 fun field _ => field.separable
  rw [before, List.forall_mem_append, List.forall_mem_cons, List.forall_mem_cons]
  exact ⟨hplain _, m.root.separable, m.mountPoint.separable, hplain _⟩

theorem words_before :
    (spaced m.before).words = m.identity.map (·.text) ++
      (MountEscape.pieces m.root.text ++ MountEscape.pieces m.mountPoint.text).map
        MountEscape.write ++ (m.options :: m.optional).map (·.text) := by
  rw [Text.words_spaced, before, List.flatMap_append, List.flatMap_cons, List.flatMap_cons,
    FrontField.flatMap_words, FrontField.flatMap_words, MountEscape.words_write,
    MountEscape.words_write, List.map_append, List.append_assoc, List.append_assoc]

theorem words_after :
    (spaced m.after).words = [m.fsType.text, m.source.text, m.superOptions.text] := by
  rw [Text.words_spaced, after]
  simp only [List.flatMap_cons, List.flatMap_nil, PlainField.words, List.append_nil,
    List.singleton_append]

theorem read_of_pieces {root mountPoint : Text} {more : List Text}
    (h : MountEscape.pieces m.root.text ++ MountEscape.pieces m.mountPoint.text =
      root :: mountPoint :: more) :
    MountEntry.read m.line = .ok ⟨root, mountPoint, m.fsType.text⟩ := by
  have hcut : MountEntry.cutSeparator? m.line = some (spaced m.before, spaced m.after) :=
    MountEntry.cutSeparator?_spaced (List.append_ne_nil_of_right_ne_nil _ (List.cons_ne_nil _ _))
      m.separable_before _
  have hbefore : (spaced m.before).words =
      (FrontField.numeral m.id).text :: (FrontField.numeral m.parent).text ::
        (FrontField.device m.major m.minor).text :: MountEscape.write root ::
          MountEscape.write mountPoint ::
            (more.map MountEscape.write ++ (m.options :: m.optional).map (·.text)) := by
    rw [words_before, h]
    rfl
  rw [MountEntry.read, hcut]
  dsimp only
  rw [hbefore, words_after]
  dsimp only
  rw [MountEscape.decode_write, MountEscape.decode_write]

/-- What reading the line of a mount gives. -/
structure ReadLaw : Prop where
  read_pieces : ∃ root mountPoint more,
    MountEscape.pieces m.root.text ++ MountEscape.pieces m.mountPoint.text =
      root :: mountPoint :: more ∧
    MountEntry.read m.line = .ok ⟨root, mountPoint, m.fsType.text⟩
  read_entry_iff : MountEntry.read m.line = .ok m.entry ↔
    ∀ c ∈ m.root.text ++ m.mountPoint.text, isBlank c = true → c = ' ' ∨ c = '\t' ∨ c = '\n'

theorem exists_pieces : ∃ root mountPoint more,
    MountEscape.pieces m.root.text ++ MountEscape.pieces m.mountPoint.text =
      root :: mountPoint :: more := by
  obtain ⟨root, more, hroot⟩ :=
    List.exists_cons_of_ne_nil (MountEscape.pieces_ne_nil m.root.rooted)
  obtain ⟨next, rest, hnext⟩ :=
    List.exists_cons_of_ne_nil (MountEscape.pieces_ne_nil m.mountPoint.rooted)
  rw [hroot, hnext]
  cases more with
  | nil => exact ⟨root, next, rest, rfl⟩
  | cons second more => exact ⟨root, second, more ++ next :: rest, rfl⟩

theorem pieces_eq_iff : (∃ more, MountEscape.pieces m.root.text ++
    MountEscape.pieces m.mountPoint.text = m.root.text :: m.mountPoint.text :: more) ↔
      ∀ c ∈ m.root.text ++ m.mountPoint.text, MountEscape.isStray c = false := by
  rw [List.forall_mem_append]
  constructor
  · rintro ⟨more, h⟩
    obtain ⟨first, others, hroot⟩ :=
      List.exists_cons_of_ne_nil (MountEscape.pieces_ne_nil m.root.rooted)
    obtain ⟨rfl, -⟩ := List.cons.inj ((congrArg (· ++ _) hroot).symm.trans h)
    -- the root is one of its own pieces, so the only one, and the mount point comes right after it
    have hclean : ∀ c ∈ m.root.text, MountEscape.isStray c = false :=
      MountEscape.isStray_of_mem_pieces (hroot ▸ List.mem_cons_self)
    rw [MountEscape.pieces_of_forall m.root.ne_nil hclean, List.singleton_append] at h
    have hpoint : MountEscape.pieces m.mountPoint.text = m.mountPoint.text :: more :=
      (List.cons.inj h).2
    exact ⟨hclean, MountEscape.isStray_of_mem_pieces (hpoint ▸ List.mem_cons_self)⟩
  · rintro ⟨hroot, hpoint⟩
    exact ⟨[], by rw [MountEscape.pieces_of_forall m.root.ne_nil hroot,
      MountEscape.pieces_of_forall m.mountPoint.ne_nil hpoint, List.singleton_append]⟩

/-- A line is read as the first two pieces of root and mount point. These are the recorded paths
exactly if the line has no blank that the writer should have escaped and did not. -/
theorem read_line : m.ReadLaw where
  read_pieces := by
    obtain ⟨root, mountPoint, more, hpieces⟩ := m.exists_pieces
    exact ⟨root, mountPoint, more, hpieces, m.read_of_pieces hpieces⟩
  read_entry_iff := by
    simp only [← MountEscape.isStray_eq_false_iff, ← m.pieces_eq_iff]
    constructor
    · intro hread
      obtain ⟨root, mountPoint, more, hpieces⟩ := m.exists_pieces
      have hentry : (⟨root, mountPoint, m.fsType.text⟩ : MountEntry) = m.entry :=
        Except.ok.inj ((m.read_of_pieces hpieces).symm.trans hread)
      obtain ⟨rfl, rfl, -⟩ := MountEntry.mk.inj hentry
      exact ⟨more, hpieces⟩
    · rintro ⟨more, hpieces⟩
      exact m.read_of_pieces hpieces

/-- A mount point with a no-break space in it, which no escape stands for. -/
def noBreakSpace : MountRecord where
  id := 36
  parent := 35
  major := 98
  minor := 0
  root := ⟨['/'], rfl⟩
  mountPoint := ⟨"/mnt/a\u00a0b".toList, rfl⟩
  options := ⟨⟨['r', 'w'], by decide, Text.isBlank_of_all rfl⟩, by decide⟩
  optional := []
  fsType := ⟨"ext4".toList, by decide, Text.isBlank_of_all rfl⟩
  source := ⟨"/dev/sda1".toList, by decide, Text.isBlank_of_all rfl⟩
  superOptions := ⟨['r', 'w'], by decide, Text.isBlank_of_all rfl⟩

/-- The line is read without fault, with the mount point cut short. -/
theorem read_line_noBreakSpace :
    noBreakSpace.line = "36 35 98:0 / /mnt/a\u00a0b rw - ext4 /dev/sda1 rw".toList ∧
      MountEntry.read noBreakSpace.line = .ok ⟨['/'], "/mnt/a".toList, "ext4".toList⟩ ∧
        MountEntry.read noBreakSpace.line ≠ .ok noBreakSpace.entry := by
  have hread : MountEntry.read noBreakSpace.line =
      .ok ⟨['/'], "/mnt/a".toList, "ext4".toList⟩ := rfl
  refine ⟨by decide +kernel, hread, ?_⟩
  intro hentry
  have hpoint : "/mnt/a".toList = noBreakSpace.entry.mountPoint :=
    congrArg MountEntry.mountPoint (Except.ok.inj (hread.symm.trans hentry))
  exact absurd hpoint (by decide)

end MountRecord

end ResourceMetrics
