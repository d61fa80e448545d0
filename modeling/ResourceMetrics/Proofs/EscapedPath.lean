import ResourceMetrics.Blank
import ResourceMetrics.MountEscape
import ResourceMetrics.Proofs.Utf8Text

/-! The paths of a mount table as they are written: space, tab, newline and backslash as escapes,
all other characters as they stand. Decoding undoes this for every path. Splitting at blanks does
not see the escaped ones, but there are blanks that are not escaped: a path that has one falls into
pieces. -/

namespace ResourceMetrics

namespace Text

variable {p : Char → Bool}

theorem splitOnP_append_of_forall {front : Text} (hfront : ∀ c ∈ front, p c = false) (t : Text) :
    (front ++ t).splitOnP p = (t.splitOnP p).modifyHead (front ++ ·) := by
  induction front with
  | nil => exact (congrFun List.modifyHead_id (t.splitOnP p)).symm
  | cons c cs ih =>
    obtain ⟨hc, hcs⟩ := List.forall_mem_cons.1 hfront
    rw [List.cons_append, List.splitOnP_cons_eq_if_modifyHead, hc, if_neg Bool.false_ne_true,
      ih hcs, List.modifyHead_modifyHead]
    rfl

theorem forall_of_mem_splitOnP {t piece : Text} (hpiece : piece ∈ t.splitOnP p) :
    ∀ c ∈ piece, p c = false := by
  induction t generalizing piece with
  | nil =>
    rw [List.splitOnP_nil, List.mem_singleton] at hpiece
    exact hpiece ▸ List.forall_mem_nil _
  | cons d ds ih =>
    rw [List.splitOnP_cons_eq_if_modifyHead] at hpiece
    split at hpiece
    case isTrue =>
      obtain rfl | hpiece := List.mem_cons.1 hpiece
      · exact List.forall_mem_nil _
      · exact ih hpiece
    case isFalse hd =>
      obtain ⟨front, more, hsplit⟩ := List.exists_cons_of_ne_nil (List.splitOnP_ne_nil p ds)
      rw [hsplit] at hpiece ih
      obtain rfl | hpiece := List.mem_cons.1 hpiece
      · exact List.forall_mem_cons.2 ⟨eq_false_of_ne_true hd, ih List.mem_cons_self⟩
      · exact ih (List.mem_cons_of_mem front hpiece)

theorem notMem_of_mem_splitOn {sep : Char} {t piece : Text} (h : piece ∈ t.splitOn sep) :
    sep ∉ piece := by
  intro hmem
  rw [List.splitOn_eq_splitOnP] at h
  exact absurd (beq_self_eq_true sep) (Bool.eq_false_iff.1 (forall_of_mem_splitOnP h sep hmem))

theorem isBlank_of_all {t : Text} (h : t.all (!isBlank ·) = true) :
    ∀ c ∈ t, isBlank c = false := by
  intro c hc
  rw [← Bool.not_eq_true']
  exact List.all_eq_true.1 h c hc

theorem filter_splitOnP_of_forall {t : Text} (hne : t ≠ []) (h : ∀ c ∈ t, p c = false) :
    (t.splitOnP p).filter (!·.isEmpty) = [t] := by
  rw [List.splitOnP_eq_singleton h]
  exact List.filter_cons_of_pos (by rwa [Bool.not_eq_true', List.isEmpty_eq_false_iff])

end Text

namespace MountEscape

def writeChar : Char → Text
  | ' ' => ['\\', '0', '4', '0']
  | '\t' => ['\\', '0', '1', '1']
  | '\n' => ['\\', '0', '1', '2']
  | '\\' => ['\\', '1', '3', '4']
  | c => [c]

def write (path : Text) : Text := path.flatMap writeChar

theorem decodeBytes_cons_of_ne {b : UInt8} (hb : b ≠ backslash) (bs : Bytes) :
    decodeBytes (b :: bs) = b :: decodeBytes bs := by
  match bs with
  | [] => rfl
  | [_] => rfl
  | [_, _] => rfl
  | high :: middle :: low :: rest =>
    have hescape : (b = backslash && isEscape high middle low) = false := by
      rw [decide_eq_false hb, Bool.false_and]
    rw [decodeBytes, hescape]
    rfl

theorem decodeBytes_append {front : Bytes} (hfront : ∀ b ∈ front, b ≠ backslash) (bs : Bytes) :
    decodeBytes (front ++ bs) = front ++ decodeBytes bs := by
  induction front with
  | nil => rfl
  | cons b front ih =>
    obtain ⟨hb, hfront⟩ := List.forall_mem_cons.1 hfront
    rw [List.cons_append, decodeBytes_cons_of_ne hb, ih hfront, List.cons_append]

theorem ne_backslash_of_mem_encodeChar {c : Char} (hc : c ≠ '\\') :
    ∀ b ∈ String.utf8EncodeChar c, b ≠ backslash := by
  rintro b hb rfl
  have hcode : backslash.toNat = c.toNat := Utf8.toNat_of_mem_encodeChar hb (by decide)
  exact hc (Char.toNat_inj.1 hcode.symm)

theorem decodeBytes_encode_writeChar (c : Char) (bs : Bytes) :
    decodeBytes (Utf8.encode (writeChar c) ++ bs) =
      String.utf8EncodeChar c ++ decodeBytes bs := by
  fun_cases writeChar c
  case case1 => rfl
  case case2 => rfl
  case case3 => rfl
  case case4 => rfl
  case case5 hc =>
    rw [Utf8.encode, List.flatMap_singleton]
    exact decodeBytes_append (ne_backslash_of_mem_encodeChar hc) bs

theorem decodeBytes_encode_write (path : Text) :
    decodeBytes (Utf8.encode (write path)) = Utf8.encode path := by
  induction path with
  | nil => rfl
  | cons c cs ih =>
    calc decodeBytes (Utf8.encode (write (c :: cs)))
        = decodeBytes (Utf8.encode (writeChar c) ++ Utf8.encode (write cs)) := by
          simp only [Utf8.encode, write, List.flatMap_cons, List.flatMap_append]
      _ = String.utf8EncodeChar c ++ Utf8.encode cs := by
          rw [decodeBytes_encode_writeChar, ih]
      _ = Utf8.encode (c :: cs) := by rw [Utf8.encode, Utf8.encode, List.flatMap_cons]

@[simp] theorem decode_write (path : Text) : decode (write path) = path := by
  rw [decode, decodeBytes_encode_write, Utf8.decodeLossy_encode]

/-- A blank other than space, tab and newline. -/
def isStray (c : Char) : Bool := isBlank c && !(c == ' ' || c == '\t' || c == '\n')

/-- The maximal pieces of a path without such blanks. -/
def pieces (path : Text) : List Text := (path.splitOnP isStray).filter (!·.isEmpty)

theorem isStray_eq_false_iff {c : Char} :
    isStray c = false ↔ (isBlank c = true → c = ' ' ∨ c = '\t' ∨ c = '\n') := by
  rw [isStray, Bool.and_eq_false_imp]
  simp only [Bool.not_eq_false', Bool.or_eq_true, beq_iff_eq, or_assoc]

theorem writeChar_of_isStray {c : Char} (hc : isStray c = true) :
    writeChar c = [c] ∧ isBlank c = true := by
  obtain ⟨hblank, -⟩ := Bool.and_eq_true_iff.1 hc
  refine ⟨?_, hblank⟩
  fun_cases writeChar c
  case case5 => rfl
  all_goals exact absurd hc (by decide)

theorem isBlank_of_mem_writeChar {c : Char} (hc : isStray c = false) :
    ∀ d ∈ writeChar c, isBlank d = false := by
  fun_cases writeChar c
  case case5 hspace htab hnewline _ =>
    refine List.forall_mem_singleton.2 (eq_false_of_ne_true fun hblank => ?_)
    obtain h | h | h := isStray_eq_false_iff.1 hc hblank
    · exact hspace h
    · exact htab h
    · exact hnewline h
  all_goals exact Text.isBlank_of_all rfl

theorem space_notMem_writeChar (c : Char) : ' ' ∉ writeChar c := by
  fun_cases writeChar c
  case case5 hspace _ _ _ => exact fun h => hspace (List.mem_singleton.1 h).symm
  all_goals decide

theorem space_notMem_write (path : Text) : ' ' ∉ write path := by
  intro h
  obtain ⟨c, -, hc⟩ := List.mem_flatMap.1 h
  exact space_notMem_writeChar c hc

theorem writeChar_ne_nil (c : Char) : writeChar c ≠ [] := by
  fun_cases writeChar c <;> exact List.cons_ne_nil _ _

theorem write_eq_nil_iff {path : Text} : write path = [] ↔ path = [] := by
  cases path with
  | nil => exact ⟨fun _ => rfl, fun _ => rfl⟩
  | cons c cs =>
    have hne : write (c :: cs) ≠ [] := by
      rw [write, List.flatMap_cons]
      exact List.append_ne_nil_of_left_ne_nil (writeChar_ne_nil c) _
    exact iff_of_false hne (List.cons_ne_nil c cs)

theorem splitOnP_write (path : Text) :
    (write path).splitOnP isBlank = (path.splitOnP isStray).map write := by
  induction path with
  | nil => rfl
  | cons c cs ih =>
    rw [write, List.flatMap_cons, ← write, List.splitOnP_cons_eq_if_modifyHead]
    split
    case isTrue hc =>
      obtain ⟨hwrite, hblank⟩ := writeChar_of_isStray hc
      rw [hwrite, List.singleton_append, List.splitOnP_cons_eq_if_modifyHead, if_pos hblank, ih]
      rfl
    case isFalse hc =>
      rw [Bool.not_eq_true] at hc
      rw [Text.splitOnP_append_of_forall (isBlank_of_mem_writeChar hc), ih]
      obtain ⟨piece, more, hpieces⟩ :=
        List.exists_cons_of_ne_nil (List.splitOnP_ne_nil isStray cs)
      rw [hpieces]
      rfl

/-- Between blanks stand the pieces of the path, as they are written. -/
theorem words_write (path : Text) : (write path).words = (pieces path).map write := by
  have hempty : ((!·.isEmpty) : Text → Bool) ∘ write = (!·.isEmpty) := by
    funext piece
    rw [Function.comp_apply, Bool.not_inj_iff, Bool.eq_iff_iff, List.isEmpty_iff, List.isEmpty_iff,
      write_eq_nil_iff]
  rw [Text.words, splitOnP_write, List.filter_map, hempty, pieces]

theorem pieces_of_forall {path : Text} (hne : path ≠ []) (h : ∀ c ∈ path, isStray c = false) :
    pieces path = [path] :=
  Text.filter_splitOnP_of_forall hne h

theorem isStray_of_mem_pieces {path piece : Text} (hpiece : piece ∈ pieces path) :
    ∀ c ∈ piece, isStray c = false :=
  Text.forall_of_mem_splitOnP (List.mem_filter.1 hpiece).1

theorem pieces_ne_nil {path : Text} (hpath : path.head? = some '/') : pieces path ≠ [] := by
  obtain ⟨rest, rfl⟩ := List.head?_eq_some_iff.1 hpath
  obtain ⟨piece, more, hsplit⟩ := List.exists_cons_of_ne_nil (List.splitOnP_ne_nil isStray rest)
  have hslash : ¬isStray '/' = true := by decide
  rw [pieces, List.splitOnP_cons_eq_if_modifyHead, if_neg hslash, hsplit]
  exact List.cons_ne_nil _ _

end MountEscape

end ResourceMetrics
