import Mathlib.Algebra.Ring.Nat
import ResourceMetrics.Proofs.HostWindows

/-! Which `stat` files bring a sum of ticks beyond a counter, told from their lines. The busy
ticks of a line never exceed its total, so it is the total alone that overflows; it does as soon
as some first columns of the line do, whatever stands behind them. -/

namespace ResourceMetrics

/-- Columns that are counters with the given values. -/
def Columns (columns : List Text) (values : List Counter) : Prop :=
  columns.map Numeral.read64 = values.map .ok

def tickSum (values : List Counter) : Nat := (values.map UInt64.toNat).sum

/-- The values of some first columns are too large together, on top of what came before. -/
def ExceedFrom (total : Nat) (columns : List Text) : Prop :=
  ∃ front values, front <+: columns ∧ Columns front values ∧
    UInt64.size ≤ total + tickSum values

/-- All columns are counters, and their sum fits on top of what came before. -/
def FitFrom (total : Nat) (columns : List Text) : Prop :=
  ∃ values, Columns columns values ∧ total + tickSum values < UInt64.size

theorem columns_cons_iff {t : Text} {rest : List Text} {values : List Counter} :
    Columns (t :: rest) values ↔
      ∃ n more, values = n :: more ∧ Numeral.read64 t = .ok n ∧ Columns rest more := by
  unfold Columns
  cases values with
  | nil => simp
  | cons n more =>
      simp only [List.map_cons, List.cons.injEq]
      constructor
      · rintro ⟨ht, hrest⟩
        exact ⟨n, more, ⟨rfl, rfl⟩, ht, hrest⟩
      · rintro ⟨_, _, ⟨rfl, rfl⟩, ht, hrest⟩
        exact ⟨ht, hrest⟩

theorem tickSum_cons (n : Counter) (values : List Counter) :
    tickSum (n :: values) = n.toNat + tickSum values := by
  simp [tickSum]

theorem not_exceedFrom_nil {total : Nat} (htotal : total < UInt64.size) :
    ¬ExceedFrom total [] := by
  rintro ⟨front, values, hfront, hcolumns, hsum⟩
  obtain rfl := List.prefix_nil.1 hfront
  have hnone : values = [] := by simpa [Columns] using hcolumns.symm
  rw [hnone] at hsum
  exact Nat.not_lt.2 hsum htotal

theorem exceedFrom_cons {total : Nat} {t : Text} {rest : List Text} {n : Counter}
    (ht : Numeral.read64 t = .ok n) (htotal : total < UInt64.size) :
    ExceedFrom total (t :: rest) ↔
      UInt64.size ≤ total + n.toNat ∨ ExceedFrom (total + n.toNat) rest := by
  constructor
  · rintro ⟨front, values, hfront, hcolumns, hsum⟩
    cases front with
    | nil =>
        exact (not_exceedFrom_nil htotal ⟨[], values, List.nil_prefix, hcolumns, hsum⟩).elim
    | cons t' front =>
        obtain ⟨rfl, hrest⟩ := List.cons_prefix_cons.1 hfront
        obtain ⟨m, more, rfl, hm, hmore⟩ := columns_cons_iff.1 hcolumns
        obtain rfl := Except.ok.inj (ht.symm.trans hm)
        rw [tickSum_cons, ← Nat.add_assoc] at hsum
        exact Or.inr ⟨front, more, hrest, hmore, hsum⟩
  · rintro (hsize | ⟨front, values, hfront, hcolumns, hsum⟩)
    · refine ⟨[t], [n], ⟨rest, rfl⟩, by simp [Columns, ht], ?_⟩
      simpa [tickSum] using hsize
    · refine ⟨t :: front, n :: values, List.cons_prefix_cons.2 ⟨rfl, hfront⟩,
        columns_cons_iff.2 ⟨n, values, rfl, ht, hcolumns⟩, ?_⟩
      rw [tickSum_cons, ← Nat.add_assoc]
      exact hsum

theorem fitFrom_cons {total : Nat} {t : Text} {rest : List Text} {n : Counter}
    (ht : Numeral.read64 t = .ok n) :
    FitFrom total (t :: rest) ↔ FitFrom (total + n.toNat) rest := by
  constructor
  · rintro ⟨values, hcolumns, hsum⟩
    obtain ⟨m, more, rfl, hm, hmore⟩ := columns_cons_iff.1 hcolumns
    obtain rfl := Except.ok.inj (ht.symm.trans hm)
    rw [tickSum_cons, ← Nat.add_assoc] at hsum
    exact ⟨more, hmore, hsum⟩
  · rintro ⟨values, hcolumns, hsum⟩
    refine ⟨n :: values, columns_cons_iff.2 ⟨n, values, rfl, ht, hcolumns⟩, ?_⟩
    rw [tickSum_cons, ← Nat.add_assoc]
    exact hsum

/-- A column that is no counter ends the sum. -/
theorem not_fitFrom_cons {total : Nat} {t : Text} {rest : List Text} {cause : NumeralError}
    (ht : Numeral.read64 t = .error cause) : ¬FitFrom total (t :: rest) := by
  rintro ⟨values, hcolumns, -⟩
  obtain ⟨n, more, -, hn, -⟩ := columns_cons_iff.1 hcolumns
  rw [ht] at hn
  cases hn

theorem not_exceedFrom_cons {total : Nat} {t : Text} {rest : List Text} {cause : NumeralError}
    (ht : Numeral.read64 t = .error cause) (htotal : total < UInt64.size) :
    ¬ExceedFrom total (t :: rest) := by
  rintro ⟨front, values, hfront, hcolumns, hsum⟩
  cases front with
  | nil => exact not_exceedFrom_nil htotal ⟨[], values, List.nil_prefix, hcolumns, hsum⟩
  | cons t' front =>
      obtain ⟨rfl, -⟩ := List.cons_prefix_cons.1 hfront
      obtain ⟨n, more, -, hn, -⟩ := columns_cons_iff.1 hcolumns
      rw [ht] at hn
      cases hn

/-- Where the total fits, so do the busy ticks. -/
theorem CpuTicks.addColumn_of_lt (column : Nat) {ticks : CpuTicks}
    (hbusy : ticks.busy ≤ ticks.total) {n : Counter}
    (h : ticks.total.toNat + n.toNat < UInt64.size) :
    ∃ next, ticks.addColumn column n = .ok next ∧ next.busy ≤ next.total ∧
      next.total.toNat = ticks.total.toNat + n.toNat := by
  have hle := UInt64.le_iff_toNat_le.1 hbusy
  have hn := n.toNat_lt_size
  have htotal : (UInt64.ofNat (ticks.total.toNat + n.toNat)).toNat =
      ticks.total.toNat + n.toNat := UInt64.toNat_ofNat_of_lt' h
  have hsum := Counter.addOrFault_eq_ok_iff.2 htotal.symm
  unfold addColumn
  by_cases hidle : idleColumn column = true
  · refine ⟨{ ticks with total := UInt64.ofNat (ticks.total.toNat + n.toNat) }, ?_, ?_, htotal⟩
    · rw [hsum]
      exact if_pos hidle
    · rw [UInt64.le_iff_toNat_le, htotal]
      exact Nat.le_add_right_of_le hle
  · have hadd : (UInt64.ofNat (ticks.busy.toNat + n.toNat)).toNat =
        ticks.busy.toNat + n.toNat := UInt64.toNat_ofNat_of_lt' (by omega)
    have hbusySum := Counter.addOrFault_eq_ok_iff.2 hadd.symm
    refine ⟨⟨UInt64.ofNat (ticks.busy.toNat + n.toNat),
      UInt64.ofNat (ticks.total.toNat + n.toNat)⟩, ?_, ?_, htotal⟩
    · rw [hsum, hbusySum]
      exact if_neg hidle
    · rw [UInt64.le_iff_toNat_le, htotal, hadd]
      omega

theorem CpuTicks.addColumn_of_size_le (column : Nat) {ticks : CpuTicks} {n : Counter}
    (h : UInt64.size ≤ ticks.total.toNat + n.toNat) :
    ∃ fault, ticks.addColumn column n = .error fault := by
  obtain ⟨fault, hsum⟩ := Counter.addOrFault_error_iff.2 h
  unfold addColumn
  rw [hsum]
  exact ⟨fault, rfl⟩

/-- Reading columns ends well exactly if they fit, and in a fault exactly if they exceed. -/
theorem CpuTicks.readColumns_iff (line : Nat) (columns : List Text) :
    ∀ (column : Nat) {ticks : CpuTicks}, ticks.busy ≤ ticks.total →
      ((∃ next, readColumns line column ticks columns = .ok next) ↔
        FitFrom ticks.total.toNat columns) ∧
      ((∃ fault, readColumns line column ticks columns = .error (.overflow fault)) ↔
        ExceedFrom ticks.total.toNat columns) := by
  induction columns with
  | nil =>
      intro column ticks _
      have htotal := ticks.total.toNat_lt_size
      exact ⟨iff_of_true ⟨ticks, rfl⟩ ⟨[], rfl, htotal⟩,
        iff_of_false nofun (not_exceedFrom_nil htotal)⟩
  | cons t rest ih =>
      intro column ticks hbusy
      have htotal := ticks.total.toNat_lt_size
      unfold readColumns readValue
      cases ht : Numeral.read64 t with
      | error cause =>
          exact ⟨iff_of_false nofun (not_fitFrom_cons ht),
            iff_of_false nofun (not_exceedFrom_cons ht htotal)⟩
      | ok n =>
          dsimp only
          rw [fitFrom_cons ht, exceedFrom_cons ht htotal]
          rcases Nat.lt_or_ge (ticks.total.toNat + n.toNat) UInt64.size with hfit | hsize
          · obtain ⟨next, hadd, hnext, hsum⟩ := addColumn_of_lt column hbusy hfit
            obtain ⟨hok, hfault⟩ := ih (column + 1) hnext
            rw [hadd, or_iff_right (Nat.not_le.2 hfit), ← hsum]
            exact ⟨hok, hfault⟩
          · obtain ⟨fault, hadd⟩ := addColumn_of_size_le column hsize
            rw [hadd]
            refine ⟨iff_of_false nofun ?_, iff_of_true ⟨fault, rfl⟩ (Or.inl hsize)⟩
            rintro ⟨values, -, hsum⟩
            omega

/-- A CPU line with its columns, as far as ticks go. -/
def IsCpuLine (line : Bytes) (columns : List Text) : Prop :=
  ∃ text label all, Utf8.decode? line = some text ∧
    HostTicks.cpuLine? text = some (label, all) ∧ columns = all.take 8

/-- A CPU line whose ticks are counters, with a sum that is one too. -/
def LineFits (line : Bytes) : Prop := ∃ columns, IsCpuLine line columns ∧ FitFrom 0 columns

/-- A CPU line on which the sum of some first ticks is too large for a counter. -/
def LineExceeds (line : Bytes) : Prop := ∃ columns, IsCpuLine line columns ∧ ExceedFrom 0 columns

/-- Some line exceeds, after lines that all fit. What comes behind it does not matter. -/
def LinesExceed (ls : List Bytes) : Prop :=
  ∃ front line rest, ls = front ++ line :: rest ∧ (∀ l ∈ front, LineFits l) ∧ LineExceeds line

theorem linesExceed_cons {line : Bytes} {ls : List Bytes} :
    LinesExceed (line :: ls) ↔ LineExceeds line ∨ LineFits line ∧ LinesExceed ls := by
  constructor
  · rintro ⟨front, bad, rest, hsplit, hfront, hbad⟩
    cases front with
    | nil =>
        obtain ⟨rfl, -⟩ := List.cons.inj hsplit
        exact Or.inl hbad
    | cons first front =>
        obtain ⟨rfl, hrest⟩ := List.cons.inj hsplit
        obtain ⟨hfirst, hfront⟩ := List.forall_mem_cons.1 hfront
        exact Or.inr ⟨hfirst, front, bad, rest, hrest, hfront, hbad⟩
  · rintro (hbad | ⟨hline, front, bad, rest, rfl, hfront, hbad⟩)
    · exact ⟨[], line, ls, rfl, nofun, hbad⟩
    · exact ⟨line :: front, bad, rest, rfl, List.forall_mem_cons.2 ⟨hline, hfront⟩, hbad⟩

namespace HostTicks

theorem read_columns_iff (number : Nat) (columns : List Text) :
    ((∃ ticks, CpuTicks.read number columns = .ok ticks) ↔ FitFrom 0 (columns.take 8)) ∧
      ((∃ fault, CpuTicks.read number columns = .error (.overflow fault)) ↔
        ExceedFrom 0 (columns.take 8)) :=
  CpuTicks.readColumns_iff number _ 0 (UInt64.le_refl 0)

theorem isCpuLine_iff {line : Bytes} {text label : Text} {all columns : List Text}
    (htext : Utf8.decode? line = some text) (hline : cpuLine? text = some (label, all)) :
    IsCpuLine line columns ↔ columns = all.take 8 := by
  constructor
  · rintro ⟨text', label', all', htext', hline', rfl⟩
    obtain rfl := Option.some.inj (htext.symm.trans htext')
    obtain ⟨-, rfl⟩ := Prod.mk.inj (Option.some.inj (hline.symm.trans hline'))
    rfl
  · rintro rfl
    exact ⟨text, label, all, htext, hline, rfl⟩

/-- What reading does at one line. -/
theorem readLines_cons_overflow_iff (number : Nat) (line : Bytes) (ls : List Bytes) :
    (∃ fault, readLines number (line :: ls) = .error (.overflow fault)) ↔
      LineExceeds line ∨
        LineFits line ∧ ∃ fault, readLines (number + 1) ls = .error (.overflow fault) := by
  unfold LineExceeds LineFits
  rw [readLines, lineText]
  cases htext : Utf8.decode? line with
  | none =>
      refine iff_of_false nofun ?_
      rintro (⟨_, ⟨_, _, _, h, _⟩, _⟩ | ⟨⟨_, ⟨_, _, _, h, _⟩, _⟩, _⟩)
      all_goals
        rw [htext] at h
        cases h
  | some text =>
      dsimp only
      cases hline : cpuLine? text with
      | none =>
          refine iff_of_false nofun ?_
          rintro (⟨_, ⟨_, _, _, h, hcpu, _⟩, _⟩ | ⟨⟨_, ⟨_, _, _, h, hcpu, _⟩, _⟩, _⟩)
          all_goals
            obtain rfl := Option.some.inj (htext.symm.trans h)
            rw [hline] at hcpu
            cases hcpu
      | some cpu =>
          obtain ⟨label, all⟩ := cpu
          obtain ⟨hfits, hexceeds⟩ := read_columns_iff number all
          simp only [isCpuLine_iff htext hline, exists_eq_left, ← hfits, ← hexceeds]
          cases CpuTicks.read number all with
          | error cause => simp [bind, Except.bind]
          | ok ticks =>
              cases readLines (number + 1) ls with
              | error cause => simp [bind, Except.bind]
              | ok others => simp [bind, Except.bind, pure, Except.pure]

/-- Reading lines ends in a fault exactly if it comes to a line that exceeds. -/
theorem readLines_overflow_iff (ls : List Bytes) : ∀ number : Nat,
    (∃ fault, readLines number ls = .error (.overflow fault)) ↔ LinesExceed ls := by
  induction ls with
  | nil =>
      refine fun number => iff_of_false nofun ?_
      rintro ⟨front, line, rest, hsplit, -⟩
      exact List.append_ne_nil_of_right_ne_nil front (List.cons_ne_nil line rest) hsplit.symm
  | cons line ls ih =>
      intro number
      rw [readLines_cons_overflow_iff, linesExceed_cons, ih]

theorem read_overflow_iff {contents : Bytes} :
    (∃ fault, read contents = .error (.overflow fault)) ↔ LinesExceed (lines contents) := by
  rw [← readLines_overflow_iff (lines contents) 1, read]
  cases readLines 1 (lines contents) with
  | error cause => simp [bind, Except.bind]
  | ok labelled => simp [bind, Except.bind, pure, Except.pure]

end HostTicks

/-- A path leads to a file with these contents. -/
def FileTree.Holds (tree : FileTree) (path : Path) (contents : Bytes) : Prop :=
  tree.openFile path = .ok (.file contents)

theorem FileTree.parse_eq_parsing_iff {ε β : Type} {tree : FileTree} {path path' : Path}
    {format : Bytes → Except ε β} {cause : ε} :
    tree.parse path format = .error (.parsing path' cause) ↔
      path = path' ∧ ∃ contents, tree.Holds path contents ∧ format contents = .error cause := by
  unfold parse Holds
  cases tree.openFile path with
  | error cause' => simp
  | ok entry =>
      cases entry with
      | directory => simp [Entry.contents]
      | file contents =>
          simp only [Entry.contents, Except.ok.injEq, Entry.file.injEq, exists_eq_left']
          cases format contents with
          | error cause' => simp
          | ok b => simp

theorem HostFiles.ticksOverflow_iff (host : HostFiles) (tree : FileTree) :
    host.TicksOverflow tree ↔
      ∃ contents, tree.Holds (host.procRoot.join (Path.ofString "stat")) contents ∧
        LinesExceed (lines contents) := by
  unfold TicksOverflow
  simp only [FileTree.parse_eq_parsing_iff, ← HostTicks.read_overflow_iff]
  constructor
  · rintro ⟨path, fault, -, contents, hcontents, hread⟩
    exact ⟨contents, hcontents, fault, hread⟩
  · rintro ⟨contents, hcontents, fault, hread⟩
    exact ⟨_, fault, rfl, contents, hcontents, hread⟩

end ResourceMetrics
