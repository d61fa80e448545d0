import Mathlib.Data.List.DropRight
import ResourceMetrics.Proofs.ContainerDetection
import ResourceMetrics.Proofs.EscapedPath
import ResourceMetrics.Proofs.FileLines

/-! The membership file of a process. The first line with the mark of the unified hierarchy
decides, whatever lines stand before it and whatever bytes behind it. The group that it assigns is
read back without the blanks at its end, so a group whose name ends in a blank is taken for
another one. -/

namespace ResourceMetrics

namespace Text

/-- Lines, each ended by a newline. -/
def ofLines (ls : List Text) : Text := ls.flatMap (· ++ ['\n'])

theorem ofLines_cons (l : Text) (ls : List Text) : ofLines (l :: ls) = l ++ '\n' :: ofLines ls := by
  rw [ofLines, List.flatMap_cons, List.append_assoc]
  rfl

theorem intercalate_concat (front : List Text) (last : Text) :
    ['\n'].intercalate (front ++ [last]) = ofLines front ++ last := by
  induction front with
  | nil => simp [ofLines]
  | cons l front ih =>
      rw [List.cons_append, List.intercalate_cons_of_ne_nil (by simp), ih, ofLines_cons]
      simp

/-- A text is its first lines, with their newlines, and a last one without. -/
theorem exists_ofLines (t : Text) : ∃ front last, t.splitOn '\n' = front ++ [last] ∧
    t = ofLines front ++ last ∧ (∀ l ∈ front, '\n' ∉ l) ∧ '\n' ∉ last := by
  refine ⟨(t.splitOn '\n').dropLast, (t.splitOn '\n').getLast (List.splitOn_ne_nil _ _),
    (List.dropLast_concat_getLast _).symm, ?_, ?_, ?_⟩
  · rw [← intercalate_concat, List.dropLast_concat_getLast, List.intercalate_splitOn]
  · exact fun l hl => notMem_of_mem_splitOn (List.dropLast_subset _ hl)
  · exact notMem_of_mem_splitOn (List.getLast_mem _)

theorem trimEnd_eq_self_iff {t : Text} :
    t.trimEnd = t ↔ ∀ c ∈ t.getLast?, isBlank c = false := by
  have hself : t.trimEnd = t ↔ ∀ h : t ≠ [], ¬isBlank (t.getLast h) = true :=
    List.rdropWhile_eq_self_iff
  rw [hself]
  by_cases hne : t = []
  · simp [hne]
  · simp [hne, List.getLast?_eq_some_getLast hne]

/-- Trimming does not go past a character that is no blank. -/
theorem trimEnd_append {t : Text} (h : ∀ c ∈ t.getLast?, isBlank c = false) (rest : Text) :
    trimEnd (t ++ rest) = t ++ rest.trimEnd := by
  induction rest using List.reverseRecOn with
  | nil =>
      rw [List.append_nil, trimEnd_eq_self_iff.2 h]
      exact (List.append_nil t).symm
  | append_singleton rest c ih =>
      rw [← List.append_assoc]
      by_cases hc : isBlank c = true
      · have hdrop (u : Text) : trimEnd (u ++ [c]) = u.trimEnd :=
          List.rdropWhile_concat_pos _ _ _ hc
        rw [hdrop, hdrop, ih]
      · have hkeep (u : Text) : trimEnd (u ++ [c]) = u ++ [c] :=
          List.rdropWhile_concat_neg _ _ _ hc
        rw [hkeep, hkeep, List.append_assoc]

end Text

theorem Utf8.encode_append (t t' : Text) : encode (t ++ t') = encode t ++ encode t' :=
  List.flatMap_append

theorem Utf8.encode_injective : Function.Injective encode := by
  intro t t' h
  have hdecode := congrArg decode? h
  rw [decode?_encode, decode?_encode] at hdecode
  exact Option.some.inj hdecode

/-- Lines that are written as text are read back in front of whatever follows them. -/
theorem lines_encode_ofLines {ls : List Text} (h : ∀ l ∈ ls, '\n' ∉ l) (more : Bytes) :
    lines (Utf8.encode (Text.ofLines ls) ++ more) = ls.map Utf8.encode ++ lines more := by
  induction ls with
  | nil => rfl
  | cons l ls ih =>
      obtain ⟨hl, hls⟩ := List.forall_mem_cons.1 h
      have hwritten : Utf8.encode (Text.ofLines (l :: ls)) ++ more =
          Utf8.encode l ++ newline :: (Utf8.encode (Text.ofLines ls) ++ more) := by
        rw [Text.ofLines_cons, Utf8.encode_append, List.append_assoc]
        rfl
      rw [hwritten, lines_line (Utf8.newline_notMem_encode hl), ih hls]
      rfl

namespace Membership

/-- What the line of the unified hierarchy starts with. -/
def mark : Text := ['0', ':', ':']

theorem ofLine?_mark (group : Text) : ofLine? (mark ++ group) = some group.trimEnd := by
  have hmark : ∀ c ∈ mark.getLast?, isBlank c = false := by
    rintro c ⟨⟩
    decide
  rw [ofLine?, Text.trimEnd_append hmark]
  rfl

theorem ofLine?_eq_none_iff {line : Text} : ofLine? line = none ↔ ¬mark <+: line := by
  constructor
  · rintro hnone ⟨group, rfl⟩
    rw [ofLine?_mark] at hnone
    cases hnone
  · intro hmark
    unfold ofLine?
    split
    · rename_i group htrim
      -- a line that starts with the mark once it is trimmed does so before
      have htrimmed : line.trimEnd <+: line := List.rdropWhile_prefix _ _
      rw [htrim] at htrimmed
      exact absurd ((List.prefix_append mark group).trans htrimmed) hmark
    · rfl

/-- What the first line that assigns a group comes to. -/
def answer (path : Path) : Option Text → Except MembershipError Path
  | some group => .ok (Utf8.encode group)
  | none => .error (.noEntry path)

variable {path : Path}

theorem answer_eq_noEntry_iff {group : Option Text} :
    answer path group = .error (.noEntry path) ↔ group = none := by
  cases group with
  | _ => simp [answer]

theorem firstIn_cons_encode (line : Text) (rest : List Bytes) :
    firstIn path (Utf8.encode line :: rest) =
      match ofLine? line with
      | some group => .ok (Utf8.encode group)
      | none => firstIn path rest := by
  cases hgroup : ofLine? line with
  | _ => simp only [firstIn, Utf8.decode?_encode, hgroup]

theorem passed_encode {line : Text} (h : ¬mark <+: line) : Passed (Utf8.encode line) :=
  ⟨line, Utf8.decode?_encode line, ofLine?_eq_none_iff.2 h⟩

/-- Lines without the mark are passed over. -/
theorem firstIn_ofLines {front : List Text} (h : ∀ l ∈ front, '\n' ∉ l ∧ ¬mark <+: l)
    (more : Bytes) : firstIn path (lines (Utf8.encode (Text.ofLines front) ++ more)) =
      firstIn path (lines more) := by
  rw [lines_encode_ofLines fun l hl => (h l hl).1]
  refine firstIn_append (fun line hline => ?_) _
  obtain ⟨l, hl, rfl⟩ := List.mem_map.1 hline
  exact passed_encode (h l hl).2

theorem firstIn_map_encode (ls : List Text) :
    firstIn path (ls.map Utf8.encode) = answer path (ls.findSome? ofLine?) := by
  induction ls with
  | nil => rfl
  | cons l ls ih =>
      rw [List.map_cons, firstIn_cons_encode, List.findSome?_cons]
      cases ofLine? l with
      | some group => rfl
      | none => exact ih

/-- A text is read by its lines; whether the last of them is ended does not matter. -/
theorem firstIn_encode (t : Text) : firstIn path (lines (Utf8.encode t)) =
    answer path ((t.splitOn '\n').findSome? ofLine?) := by
  obtain ⟨front, last, hsplit, ht, hfront, hlast⟩ := t.exists_ofLines
  have hnewline := Utf8.newline_notMem_encode hlast
  rw [hsplit]
  conv_lhs => rw [ht]
  rw [Utf8.encode_append, lines_encode_ofLines hfront]
  by_cases hempty : Utf8.encode last = []
  · obtain rfl : last = [] := Utf8.encode_injective hempty
    have hnone : [[]].findSome? ofLine? = none := rfl
    rw [List.findSome?_append, hnone, Option.or_none, ← firstIn_map_encode]
    exact congrArg (firstIn path) (List.append_nil _)
  · rw [lines_singleton hnewline hempty, ← firstIn_map_encode, List.map_append]
    rfl

/-- What reading a membership file comes to. -/
structure MembershipLaw (tree : FileTree) (path : Path) : Prop where
  /-- The group of the first line with the mark, less the blanks at its end. -/
  read_entry : ∀ {front : List Text} {group : Text} {rest : Bytes},
    (∀ l ∈ front, '\n' ∉ l ∧ ¬mark <+: l) → '\n' ∉ group →
      tree.Holds path (Utf8.encode (Text.ofLines (front ++ [mark ++ group])) ++ rest) →
        read tree path = .ok (Utf8.encode group.trimEnd)
  /-- That is the group itself exactly if it does not end in a blank. -/
  read_exact_iff : ∀ {front : List Text} {group : Text} {rest : Bytes},
    (∀ l ∈ front, '\n' ∉ l ∧ ¬mark <+: l) → '\n' ∉ group →
      tree.Holds path (Utf8.encode (Text.ofLines (front ++ [mark ++ group])) ++ rest) →
        (read tree path = .ok (Utf8.encode group) ↔ ∀ c ∈ group.getLast?, isBlank c = false)
  /-- A line that is no text ends the search, unless the mark comes before it. -/
  read_notText : ∀ {front : List Text} {line rest : Bytes},
    (∀ l ∈ front, '\n' ∉ l ∧ ¬mark <+: l) → newline ∉ line → ¬IsText line →
      tree.Holds path (Utf8.encode (Text.ofLines front) ++ (line ++ newline :: rest)) →
        read tree path = .error (.reading path .notUtf8)
  noEntry_iff : ∀ {text : Text}, tree.Holds path (Utf8.encode text) →
    (read tree path = .error (.noEntry path) ↔ ∀ line ∈ text.splitOn '\n', ¬mark <+: line)

theorem read_of_holds {tree : FileTree} {contents : Bytes} (h : tree.Holds path contents) :
    read tree path = firstIn path (lines contents) := by
  unfold read
  rw [h]
  rfl

theorem firstIn_entry {front : List Text} {group : Text}
    (hfront : ∀ l ∈ front, '\n' ∉ l ∧ ¬mark <+: l) (hgroup : '\n' ∉ group) (rest : Bytes) :
    firstIn path (lines (Utf8.encode (Text.ofLines (front ++ [mark ++ group])) ++ rest)) =
      .ok (Utf8.encode group.trimEnd) := by
  have hline : ∀ l ∈ [mark ++ group], '\n' ∉ l := by
    intro l hl
    rw [List.mem_singleton.1 hl, List.mem_append, not_or]
    exact ⟨by decide, hgroup⟩
  have hwritten : Utf8.encode (Text.ofLines (front ++ [mark ++ group])) ++ rest =
      Utf8.encode (Text.ofLines front) ++
        (Utf8.encode (Text.ofLines [mark ++ group]) ++ rest) := by
    rw [Text.ofLines, List.flatMap_append, Utf8.encode_append, List.append_assoc]
    rfl
  rw [hwritten, firstIn_ofLines hfront, lines_encode_ofLines hline, List.map_singleton,
    List.singleton_append, firstIn_cons_encode, ofLine?_mark]

/-- A membership file is read by its first line with the mark. -/
theorem membershipLaw (tree : FileTree) (path : Path) : MembershipLaw tree path where
  read_entry hfront hgroup hholds := by
    rw [read_of_holds hholds, firstIn_entry hfront hgroup]
  read_exact_iff hfront hgroup hholds := by
    rw [read_of_holds hholds, firstIn_entry hfront hgroup, Except.ok.injEq,
      Utf8.encode_injective.eq_iff, Text.trimEnd_eq_self_iff]
  read_notText {front line rest} hfront hline htext hholds := by
    have hnone : Utf8.decode? line = none := by
      rw [Option.eq_none_iff_forall_ne_some]
      exact fun text h => htext ⟨text, h⟩
    rw [read_of_holds hholds, firstIn_ofLines hfront, lines_line hline, firstIn, hnone]
  noEntry_iff hholds := by
    rw [read_of_holds hholds, firstIn_encode, answer_eq_noEntry_iff, List.findSome?_eq_none_iff]
    simp only [ofLine?_eq_none_iff]

/-- A tree with nothing but a membership file. -/
def membershipTree (contents : Bytes) : FileTree where
  entries := [([Path.ofString "cgroup"], .file contents)]

/-- Entries of other hierarchies stand before the group, and bytes that are no text behind it. -/
theorem membershipLaw_hybrid :
    read (membershipTree
        (Utf8.encode "12:cpu:/a\n1:name=0::/b\n0::/docker/my app\n0::/c\n".toList ++ [0xFF]))
      (Path.ofString "cgroup") = .ok (Path.ofString "/docker/my app") := by
  have hlaw := membershipLaw (membershipTree
      (Utf8.encode "12:cpu:/a\n1:name=0::/b\n0::/docker/my app\n0::/c\n".toList ++ [0xFF]))
    (Path.ofString "cgroup")
  have hfront : ∀ l ∈ ["12:cpu:/a".toList, "1:name=0::/b".toList], '\n' ∉ l ∧ ¬mark <+: l := by
    decide
  have hgroup : '\n' ∉ "/docker/my app".toList := by decide
  have hholds : (membershipTree
      (Utf8.encode "12:cpu:/a\n1:name=0::/b\n0::/docker/my app\n0::/c\n".toList ++ [0xFF])).Holds
        (Path.ofString "cgroup")
        (Utf8.encode (Text.ofLines (["12:cpu:/a".toList, "1:name=0::/b".toList] ++
          [mark ++ "/docker/my app".toList])) ++ (Utf8.encode "0::/c\n".toList ++ [0xFF])) := rfl
  refine (hlaw.read_exact_iff hfront hgroup hholds).2 ?_
  rintro c ⟨⟩
  decide

/-- A group whose name ends in a space is read as another one. -/
theorem read_entry_blankEnd :
    read (membershipTree (Utf8.encode "0::/my app \n".toList)) (Path.ofString "cgroup") =
        .ok (Path.ofString "/my app") ∧
      Path.ofString "/my app" ≠ Path.ofString "/my app " := by
  decide +kernel

end Membership

end ResourceMetrics
