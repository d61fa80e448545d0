import Mathlib.Data.List.Pairwise
import ResourceMetrics.Proofs.KeyedLines

/-! Files of keys and values in which no key may repeat. Reading looks at the lines up to the one
with which every known key has been named, and at nothing else: the bytes behind it do not matter,
and a line that names no known key only moves the numbers of the lines behind it. Where the handlers
of different keys do not disturb each other, neither does the order of the lines matter. -/

namespace ResourceMetrics

/-- Changes the number of the line that an error names. -/
def StatError.renumber (f : Nat → Nat) : StatError → StatError
  | .duplicateField field line => .duplicateField field (f line)
  | .invalidKeyValue key value line cause => .invalidKeyValue key value (f line) cause
  | .invalidValue value line cause => .invalidValue value (f line) cause
  | .invalidCpuList value cause => .invalidCpuList value cause
  | .truncatedProcessLine line => .truncatedProcessLine line
  | .notUtf8 => .notUtf8

/-- The number of a line once a line is put in behind the `k` first ones. -/
def numberPast (k number : Nat) : Nat := if number ≤ k then number else number + 1

namespace KeyTable

variable {α : Type} (table : KeyTable α)

/-- What reading a file comes to where keys may not repeat. -/
structure UniqueKeysLaw : Prop where
  exists_needed : ∀ ls, ∃ front, table.Needed ls front
  ok_iff : ∀ {contents front}, table.Needed (lines contents) front → ∀ result,
    table.read contents = .ok result ↔
      table.Sound front ∧ result = table.putAll table.initial front
  error_iff : ∀ {contents front}, table.Needed (lines contents) front → ∀ e,
    table.read contents = .error e ↔ ItemFaults.First table.LineFault front e
  behind : ∀ {head}, table.Finished (lines (head ++ [newline])) → ∀ tail,
    table.read (head ++ newline :: tail) = table.read (head ++ [newline])
  skip : ∀ {contents contents' before line after}, lines contents = before ++ line :: after →
    lines contents' = before ++ after → IsText line → (∀ key, ¬table.Names line key) →
      table.read contents =
        (table.read contents').mapError (StatError.renumber (numberPast before.length))

/-- The lines of a file that is in order can stand in any order. -/
def FreeOrder : Prop := ∀ contents contents', (lines contents).Perm (lines contents') →
  table.Sound (lines contents) →
    ∃ result, table.read contents = .ok result ∧ table.read contents' = .ok result

/-- The handlers of two fields can be applied in either order. -/
def Commutes : Prop :=
  table.fields.Pairwise fun f g => ∀ a m n, g.2 (f.2 a m) n = f.2 (g.2 a n) m

variable {table} {contents contents' line : Bytes} {ls front : List Bytes}

theorem read_eq_of_needed (hstart : ¬table.Finished []) (h : table.Needed (lines contents) front)
    (h' : table.Needed (lines contents') front) : table.read contents' = table.read contents := by
  cases hread : table.read contents with
  | ok result => exact (read_eq_ok_iff hstart h').2 ((read_eq_ok_iff hstart h).1 hread)
  | error e => exact (read_eq_error_iff hstart h').2 ((read_eq_error_iff hstart h).1 hread)

theorem Needed.finished (h : table.Needed ls front) (hls : table.Finished ls) :
    table.Finished front := by
  obtain hfront | rfl := h.finished_or_all
  · exact hfront
  · exact hls

theorem Needed.append (h : table.Needed ls front) (hls : table.Finished ls) (more : List Bytes) :
    table.Needed (ls ++ more) front where
  isPrefix := h.isPrefix.trans (List.prefix_append ls more)
  finished_or_all := Or.inl (h.finished hls)
  shortest := by
    intro shorter hshorter hfinished
    rcases Nat.le_total shorter.length ls.length with hle | hle
    · have hinside := List.prefix_of_prefix_length_le hshorter (List.prefix_append ls more) hle
      exact h.shortest shorter hinside hfinished
    · exact Nat.le_trans h.isPrefix.length_le hle

theorem read_behind (hstart : ¬table.Finished []) {head : Bytes}
    (h : table.Finished (lines (head ++ [newline]))) (tail : Bytes) :
    table.read (head ++ newline :: tail) = table.read (head ++ [newline]) := by
  obtain ⟨front, hfront⟩ := exists_needed table (lines (head ++ [newline]))
  have hlines : lines (head ++ newline :: tail) = lines (head ++ [newline]) ++ lines tail := by
    rw [← lines_append (ended_concat head), ← List.append_cons]
  refine read_eq_of_needed hstart hfront ?_
  rw [hlines]
  exact hfront.append h (lines tail)

theorem step_renumber {f : Nat → Nat} {number number' : Nat} (hf : f number = number')
    (seen : List Text) (result : α) (text : Text) :
    table.step number' seen result text =
      (table.step number seen result text).mapError (StatError.renumber f) := by
  subst hf
  unfold step
  cases table.entry? text with
  | none => rfl
  | some entry =>
      obtain ⟨key, value, handle⟩ := entry
      dsimp only
      cases Numeral.read64 value with
      | error cause => rfl
      | ok n =>
          dsimp only
          split
          · rfl
          · rfl

/-- What one line leads to, if what the others lead to is known. -/
theorem readLines_cons_congr {g : StatError → StatError} {number number' : Nat} {seen : List Text}
    {result : α} {rest rest' : List Bytes} (hutf8 : g .notUtf8 = .notUtf8)
    (hstep : ∀ text, table.step number' seen result text =
      (table.step number seen result text).mapError g)
    (hrest : ∀ seen' result', (!table.repeats && table.complete seen') = false →
      table.readLines (number' + 1) seen' result' rest' =
        (table.readLines (number + 1) seen' result' rest).mapError g) :
    table.readLines number' seen result (line :: rest') =
      (table.readLines number seen result (line :: rest)).mapError g := by
  rw [readLines, readLines, lineText]
  cases Utf8.decode? line with
  | none => exact congrArg Except.error hutf8.symm
  | some text =>
      dsimp only [bind, Except.bind]
      rw [hstep text]
      cases table.step number seen result text with
      | error e => rfl
      | ok taken =>
          obtain ⟨seen', result'⟩ := taken
          dsimp only [Except.mapError]
          cases hstop : !table.repeats && table.complete seen' with
          | true => rfl
          | false => exact hrest seen' result' hstop

theorem readLines_renumber {f : Nat → Nat} (ls : List Bytes) :
    ∀ {number : Nat}, (∀ m, number ≤ m → f m = m + 1) → ∀ (seen : List Text) (result : α),
      table.readLines (number + 1) seen result ls =
        (table.readLines number seen result ls).mapError (StatError.renumber f) := by
  induction ls with
  | nil => exact fun _ _ _ => rfl
  | cons line rest ih =>
      intro number hf seen result
      refine readLines_cons_congr rfl ?_ ?_
      · exact step_renumber (hf number (Nat.le_refl number)) seen result
      · intro seen' result' _
        exact ih (fun m hm => hf m (Nat.le_of_succ_le hm)) seen' result'

theorem readLines_of_not_names {number : Nat} {seen : List Text} {result : α} (htext : IsText line)
    (hnames : ∀ key, ¬table.Names line key)
    (hgoes : (!table.repeats && table.complete seen) = false) (rest : List Bytes) :
    table.readLines number seen result (line :: rest) =
      table.readLines (number + 1) seen result rest := by
  obtain ⟨text, htext⟩ := htext
  have hentry : table.entry? text = none := by
    rw [Option.eq_none_iff_forall_ne_some]
    rintro ⟨key, value, handle⟩ hentry
    exact hnames key ⟨value, (gives_iff htext).2 ⟨handle, hentry⟩⟩
  rw [readLines, lineText, htext]
  dsimp only [bind, Except.bind]
  rw [step, hentry]
  dsimp only
  rw [hgoes]
  rfl

/-- The line counts as one line more, and for nothing else. -/
theorem readLines_skip {after : List Bytes} {k : Nat} (htext : IsText line)
    (hnames : ∀ key, ¬table.Names line key) (before : List Bytes) :
    ∀ {number : Nat} {seen : List Text} {result : α}, number + before.length = k + 1 →
      (!table.repeats && table.complete seen) = false →
      table.readLines number seen result (before ++ line :: after) =
        (table.readLines number seen result (before ++ after)).mapError
          (StatError.renumber (numberPast k)) := by
  induction before with
  | nil =>
      intro number seen result hnumber hgoes
      have hpast : ∀ m, number ≤ m → numberPast k m = m + 1 := by
        intro m hm
        rw [List.length_nil, Nat.add_zero] at hnumber
        exact if_neg (by omega)
      rw [List.nil_append, List.nil_append, readLines_of_not_names htext hnames hgoes,
        readLines_renumber after hpast]
  | cons first before ih =>
      intro number seen result hnumber _
      rw [List.length_cons] at hnumber
      have hpast : numberPast k number = number := if_pos (by omega)
      refine readLines_cons_congr rfl ?_ ?_
      · exact step_renumber hpast seen result
      · intro seen' result' hgoes'
        exact ih (by omega) hgoes'

theorem complete_nil (hfields : table.fields ≠ []) : table.complete [] = false := by
  obtain ⟨field, fields, hcons⟩ := List.exists_cons_of_ne_nil hfields
  rw [complete, hcons, List.all_cons]
  rfl

theorem mem_fields_of_handler? {key : Text} {handle : α → Counter → α}
    (h : table.handler? key = some handle) : (key, handle) ∈ table.fields := by
  obtain ⟨front, rest, hfields, -⟩ := List.lookup_eq_some_iff.1 h
  rw [hfields]
  exact List.mem_append_right front List.mem_cons_self

theorem Commutes.put (h : table.Commutes) {x y : Text × Counter} (hkey : x.1 ≠ y.1) (a : α) :
    table.put (table.put a x) y = table.put (table.put a y) x := by
  have : Std.Symm fun f g : Text × (α → Counter → α) =>
      ∀ a m n, g.2 (f.2 a m) n = f.2 (g.2 a n) m :=
    ⟨fun _ _ hfg a m n => (hfg a n m).symm⟩
  unfold KeyTable.put
  cases hx : table.handler? x.1 with
  | none => rfl
  | some handle =>
      cases hy : table.handler? y.1 with
      | none => rfl
      | some handle' =>
          refine List.Pairwise.forall h (mem_fields_of_handler? hx) (mem_fields_of_handler? hy)
            ?_ a x.2 y.2
          exact fun hsame => hkey (Prod.mk.inj hsame).1

theorem Sound.of_isPrefix (h : table.Sound ls) (hfront : front <+: ls) : table.Sound front where
  text line hline := h.text line (hfront.subset hline)
  value line hline := h.value line (hfront.subset hline)
  once hrepeats := (h.once hrepeats).sublist hfront.sublist

theorem Sound.perm {ls' : List Bytes} (h : table.Sound ls) (hperm : ls.Perm ls') :
    table.Sound ls' where
  text line hline := h.text line (hperm.mem_iff.2 hline)
  value line hline := h.value line (hperm.mem_iff.2 hline)
  once hrepeats := by
    refine (hperm.pairwise_iff ?_).1 (h.once hrepeats)
    exact fun hdisjoint key hnames hnames' => hdisjoint key hnames' hnames

/-- In order, a file names none of the known keys behind the lines that are needed. -/
theorem Needed.putAll_eq (h : table.Needed ls front) (hsound : table.Sound ls) (result : α) :
    table.putAll result front = table.putAll result ls := by
  obtain ⟨hrepeats, hall⟩ | rfl := h.finished_or_all
  · obtain ⟨rest, rfl⟩ := h.isPrefix
    -- every known key has been named before, and none may come again
    have hrest : table.numbers rest = [] := by
      refine List.filterMap_eq_nil_iff.2 fun line hline => number?_eq_none fun key hnames => ?_
      obtain ⟨value, hgives⟩ := hnames
      obtain ⟨first, hfirst, hfirstNames⟩ := hall key hgives.1
      obtain ⟨-, -, hacross⟩ := List.pairwise_append.1 (hsound.once hrepeats)
      exact hacross first hfirst line hline key hfirstNames ⟨value, hgives⟩
    rw [putAll_append, putAll, putAll, hrest]
    rfl
  · rfl

theorem Sound.keys_pairwise (h : table.Sound ls) (hunique : table.repeats = false) :
    (table.numbers ls).Pairwise fun x y => x.1 ≠ y.1 := by
  refine (h.once hunique).filterMap _ ?_
  rintro line line' hdisjoint ⟨key, n⟩ hnumber ⟨key', n'⟩ hnumber' rfl
  exact hdisjoint key (names_of_number? hnumber) (names_of_number? hnumber')

theorem putAll_perm (hunique : table.repeats = false) (hcommutes : table.Commutes)
    {ls' : List Bytes} (hsound : table.Sound ls) (hperm : ls.Perm ls') (result : α) :
    table.putAll result ls = table.putAll result ls' := by
  have : Std.Symm fun x y : Text × Counter => x.1 ≠ y.1 := ⟨fun _ _ => Ne.symm⟩
  have hkeys := hsound.keys_pairwise hunique
  refine (hperm.filterMap table.number?).foldl_eq' ?_ result
  intro x hx y hy a
  by_cases hxy : x = y
  · rw [hxy]
  · exact hcommutes.put (hkeys.forall hx hy hxy) a

theorem freeOrder_of_commutes (hunique : table.repeats = false) (hfields : table.fields ≠ [])
    (hcommutes : table.Commutes) : table.FreeOrder := by
  intro contents contents' hperm hsound
  have hstart := not_finished_nil hfields
  have hread {contents : Bytes} (hsound : table.Sound (lines contents)) :
      table.read contents = .ok (table.putAll table.initial (lines contents)) := by
    obtain ⟨front, hfront⟩ := exists_needed table (lines contents)
    rw [read_eq_ok_iff hstart hfront, hfront.putAll_eq hsound]
    exact ⟨hsound.of_isPrefix hfront.isPrefix, rfl⟩
  refine ⟨_, hread hsound, ?_⟩
  rw [hread (hsound.perm hperm), putAll_perm hunique hcommutes hsound hperm]

theorem cpuStat_commutes : CpuStat.table.Commutes := by
  simp [Commutes, CpuStat.table]

theorem meminfo_commutes : Meminfo.table.Commutes := by
  simp [Commutes, Meminfo.table]

/-- Files in which no key may repeat are read as their lines up to the last new key say. -/
theorem uniqueKeysLaw (hunique : table.repeats = false) (hfields : table.fields ≠ []) :
    table.UniqueKeysLaw ∧ CpuStat.table.FreeOrder ∧ Meminfo.table.FreeOrder := by
  have hstart := not_finished_nil hfields
  refine ⟨⟨exists_needed table, fun hneeded _ => read_eq_ok_iff hstart hneeded,
    fun hneeded _ => read_eq_error_iff hstart hneeded, read_behind hstart, ?_⟩,
    freeOrder_of_commutes rfl (List.cons_ne_nil _ _) cpuStat_commutes,
    freeOrder_of_commutes rfl (List.cons_ne_nil _ _) meminfo_commutes⟩
  intro contents contents' before line after hlines hlines' htext hnames
  rw [read, read, hlines, hlines']
  refine readLines_skip htext hnames before (Nat.add_comm 1 _) ?_
  rw [hunique, complete_nil hfields]
  rfl

/-- Reading `cpu.stat` ends with its second key, so that a key which comes again behind it, with a
value that is no number, counts for nothing. -/
theorem cpuStat_read_behind :
    CpuStat.table.repeats = false ∧ CpuStat.table.fields ≠ [] ∧
      CpuStat.table.read (Utf8.encode "usage_usec: 5\n\nnr_periods 7\nusage_usec x".toList) =
        .ok ⟨5, 7⟩ := by
  have hlaw : CpuStat.table.UniqueKeysLaw := (uniqueKeysLaw rfl (List.cons_ne_nil _ _)).1
  have hfinished : CpuStat.table.Finished
      (lines (Utf8.encode "usage_usec: 5\n\nnr_periods 7".toList ++ [newline])) := by
    refine ⟨rfl, fun key hkey => ?_⟩
    obtain rfl | hkey := List.mem_cons.1 hkey
    · exact ⟨Utf8.encode "usage_usec: 5".toList, by decide, names_of_number? (n := 5) (by decide)⟩
    · obtain rfl := List.mem_singleton.1 hkey
      exact ⟨Utf8.encode "nr_periods 7".toList, by decide, names_of_number? (n := 7) (by decide)⟩
  refine ⟨rfl, List.cons_ne_nil _ _, ?_⟩
  exact (hlaw.behind hfinished (Utf8.encode "usage_usec x".toList)).trans (by decide)

end KeyTable

end ResourceMetrics
