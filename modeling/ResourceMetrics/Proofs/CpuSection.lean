import Mathlib.Data.List.Forall2
import ResourceMetrics.Proofs.FileLines
import ResourceMetrics.Proofs.FirstFault
import ResourceMetrics.Proofs.TickSums

/-! The CPU lines in front of a `stat` file. Reading takes the first lines whose first word begins
with `cpu`, and of each line the label and eight columns; nothing else in the file matters. A column
is at fault if it is no number, or if the columns up to it are beyond a counter together, and the
first column at fault on the first line that has one decides. Otherwise each line gives the sum of
its columns, of which the busy ticks are what is left without the fourth and the fifth. -/

namespace ResourceMetrics

theorem Columns.concat {columns : List Text} {values : List Counter} {t : Text} {n : Counter}
    (h : Columns columns values) (ht : Numeral.read64 t = .ok n) :
    Columns (columns ++ [t]) (values ++ [n]) := by
  unfold Columns at h ⊢
  rw [List.map_append, List.map_append, h, List.map_singleton, List.map_singleton, ht]

theorem Columns.unique {columns : List Text} {values values' : List Counter}
    (h : Columns columns values) (h' : Columns columns values') : values = values' :=
  (List.map_inj_right fun _ _ => Except.ok.inj).1 (h.symm.trans h')

theorem tickSum_concat (values : List Counter) (n : Counter) :
    tickSum (values ++ [n]) = tickSum values + n.toNat := by
  simp [tickSum]

namespace CpuTicks

/-- Ticks of the columns that are not counted as busy, zero where they are absent. -/
def idleSum (values : List Counter) : Nat := (values.getD 3 0).toNat + (values.getD 4 0).toNat

/-- The ticks that the values of a line come to. -/
structure Tally (values : List Counter) (ticks : CpuTicks) : Prop where
  total : ticks.total.toNat = tickSum values
  busy : ticks.busy.toNat + idleSum values = tickSum values

/-- What is wrong with a column of the line with the given number. -/
inductive ColumnFault (number : Nat) (before : List Text) (t : Text) : TickError → Prop
  | invalid {cause : NumeralError} : Numeral.read64 t = .error cause →
      ColumnFault number before t (.invalid (.invalidValue t number cause))
  | overflow {values : List Counter} {n : Counter} : Columns before values →
      Numeral.read64 t = .ok n → UInt64.size ≤ tickSum values + n.toNat →
        ColumnFault number before t (.overflow .addition)

variable {number : Nat} {values : List Counter} {ticks : CpuTicks} {n : Counter}

theorem getD_concat (values : List Counter) (n : Counter) (i : Nat) :
    ((values ++ [n]).getD i 0).toNat =
      (values.getD i 0).toNat + if i = values.length then n.toNat else 0 := by
  rw [List.getD_eq_getElem?_getD, List.getD_eq_getElem?_getD]
  rcases Nat.lt_trichotomy i values.length with hlt | rfl | hgt
  · rw [List.getElem?_append_left hlt, if_neg (Nat.ne_of_lt hlt), Nat.add_zero]
  · rw [List.getElem?_concat_length, List.getElem?_eq_none (Nat.le_refl _), if_pos rfl,
      Option.getD_some, Option.getD_none, UInt64.toNat_zero, Nat.zero_add]
  · rw [List.getElem?_eq_none (by rw [List.length_append]; exact hgt),
      List.getElem?_eq_none (Nat.le_of_lt hgt), if_neg (Nat.ne_of_gt hgt), Nat.add_zero]

theorem idleSum_concat (values : List Counter) (n : Counter) :
    idleSum (values ++ [n]) =
      idleSum values + if idleColumn values.length then n.toNat else 0 := by
  unfold idleSum
  rw [getD_concat, getD_concat]
  simp only [idleColumn, Bool.or_eq_true, decide_eq_true_eq]
  split <;> split <;> split <;> omega

theorem Tally.busy_le (h : Tally values ticks) : ticks.busy ≤ ticks.total := by
  rw [UInt64.le_iff_toNat_le, h.total, ← h.busy]
  exact Nat.le_add_right _ _

theorem tally_nil : Tally [] {} := ⟨rfl, rfl⟩

/-- A column more goes into the total, and into the busy ticks unless it is one of the two. -/
theorem Tally.addColumn (h : Tally values ticks)
    (hfit : tickSum values + n.toNat < UInt64.size) :
    ∃ next, ticks.addColumn values.length n = .ok next ∧ Tally (values ++ [n]) next := by
  have htotal : (UInt64.ofNat (tickSum values + n.toNat)).toNat = tickSum values + n.toNat :=
    UInt64.toNat_ofNat_of_lt' hfit
  have haddTotal : ticks.total.addOrFault n = .ok (UInt64.ofNat (tickSum values + n.toNat)) :=
    Counter.addOrFault_eq_ok_iff.2 (by rw [h.total, htotal])
  have hbusy := h.busy
  unfold CpuTicks.addColumn
  rw [haddTotal]
  dsimp only [bind, Except.bind]
  by_cases hidle : idleColumn values.length = true
  · refine ⟨⟨ticks.busy, _⟩, if_pos hidle, ?_, ?_⟩
    · rw [tickSum_concat, htotal]
    · rw [tickSum_concat, idleSum_concat, if_pos hidle, ← hbusy, Nat.add_assoc]
  · -- the busy ticks are part of the total, so they fit as well
    have hsum : (UInt64.ofNat (ticks.busy.toNat + n.toNat)).toNat = ticks.busy.toNat + n.toNat :=
      UInt64.toNat_ofNat_of_lt' (by omega)
    have haddBusy := Counter.addOrFault_eq_ok_iff.2 hsum.symm
    rw [if_neg hidle, haddBusy]
    refine ⟨_, rfl, ?_, ?_⟩
    · rw [tickSum_concat, htotal]
    · rw [tickSum_concat, idleSum_concat, if_neg hidle, hsum]
      omega

theorem Tally.addColumn_overflow (h : Tally values ticks) (column : Nat)
    (hsize : UInt64.size ≤ tickSum values + n.toNat) :
    ticks.addColumn column n = .error .addition := by
  have hnone : ticks.total.add? n = none := by
    rw [Counter.add?, Counter.ofNat?_eq_none_iff, h.total]
    exact hsize
  unfold CpuTicks.addColumn Counter.addOrFault
  rw [hnone]
  rfl

theorem columnFault_single : ItemFaults.Single (ColumnFault number) := by
  intro before t e e' h h'
  cases h with
  | invalid ht =>
      cases h' with
      | invalid ht' =>
          cases ht.symm.trans ht'
          rfl
      | overflow _ ht' => cases ht.symm.trans ht'
  | overflow _ ht =>
      cases h' with
      | invalid ht' => cases ht.symm.trans ht'
      | overflow => rfl

/-- Reading columns one after the other keeps that the ticks are those of the columns before. -/
theorem outcome_readColumns (rest : List Text) : ∀ {before : List Text} {values : List Counter}
    {ticks : CpuTicks}, Columns before values → Tally values ticks →
      ItemFaults.Clear (ColumnFault number) before →
        ItemFaults.Outcome (ColumnFault number)
          (fun ticks => ∃ values, Columns (before ++ rest) values ∧ Tally values ticks)
          (before ++ rest) (readColumns number before.length ticks rest) := by
  induction rest with
  | nil =>
      intro before values ticks hcolumns htally hclear
      rw [List.append_nil]
      exact ⟨hclear, values, hcolumns, htally⟩
  | cons t rest ih =>
      intro before values ticks hcolumns htally hclear
      have hlength : before.length = values.length := by
        simpa using congrArg List.length hcolumns
      rw [readColumns, readValue, List.append_cons]
      cases ht : Numeral.read64 t with
      | error cause => exact (ItemFaults.First.concat hclear (.invalid ht)).append rest
      | ok n =>
          dsimp only
          rcases Nat.lt_or_ge (tickSum values + n.toNat) UInt64.size with hfit | hsize
          · obtain ⟨next, hadd, hnext⟩ := htally.addColumn hfit
            have hfault : ∀ e, ¬ColumnFault number before t e := by
              intro e hfault
              cases hfault with
              | invalid ht' => cases ht.symm.trans ht'
              | overflow hcolumns' ht' hsize =>
                  obtain rfl := hcolumns.unique hcolumns'
                  obtain rfl := Except.ok.inj (ht.symm.trans ht')
                  exact Nat.not_le.2 hfit hsize
            have hdone := ih (hcolumns.concat ht) hnext
              (ItemFaults.clear_concat_iff.2 ⟨hclear, hfault⟩)
            rw [List.length_append, List.length_singleton] at hdone
            rw [hlength] at hdone ⊢
            rw [hadd]
            exact hdone
          · rw [htally.addColumn_overflow before.length hsize]
            exact (ItemFaults.First.concat hclear (.overflow hcolumns ht hsize)).append rest

theorem outcome_read (number : Nat) (columns : List Text) :
    ItemFaults.Outcome (ColumnFault number)
      (fun ticks => ∃ values, Columns (columns.take 8) values ∧ Tally values ticks)
      (columns.take 8) (CpuTicks.read number columns) := by
  have hnone : Columns [] [] := rfl
  exact outcome_readColumns (columns.take 8) hnone tally_nil ItemFaults.clear_nil

end CpuTicks

namespace HostTicks

/-- A line of text whose first word is `cpu` with a label behind it. -/
def CpuLine (line : Bytes) (label : Text) (columns : List Text) : Prop :=
  ∃ text, Utf8.decode? line = some text ∧ text.words = ("cpu".toList ++ label) :: columns

/-- The CPU lines in front of others, which begin with a line of text if there are any. -/
structure CpuSection (ls front : List Bytes) : Prop where
  isPrefix : front <+: ls
  cpu : ∀ line ∈ front, ∃ label columns, CpuLine line label columns
  ended : ∀ line rest, ls = front ++ line :: rest →
    IsText line ∧ ∀ label columns, ¬CpuLine line label columns

/-- What is wrong with the first column at fault among the eight of a line. -/
def LineFault (before : List Bytes) (line : Bytes) (e : TickError) : Prop :=
  ∃ label columns, CpuLine line label columns ∧
    ItemFaults.First (CpuTicks.ColumnFault (before.length + 1)) (columns.take 8) e

/-- A line gives ticks under its label. -/
def LineTicks (line : Bytes) (labelled : Text × CpuTicks) : Prop :=
  ∃ columns values, CpuLine line labelled.1 columns ∧ Columns (columns.take 8) values ∧
    CpuTicks.Tally values labelled.2

/-- Lines with one label and the same eight columns. -/
def SameTicks (line line' : Bytes) : Prop :=
  ∃ label columns columns', CpuLine line label columns ∧ CpuLine line' label columns' ∧
    columns.take 8 = columns'.take 8

/-- The ticks of all lines sorted by label: those of the last line without one are for all CPUs, and
those of a line whose label is a number are for one CPU, which is looked up by its first line. -/
structure Sorted (labelled : List (Text × CpuTicks)) (ticks : HostTicks) : Prop where
  all_last : ∀ before t after, labelled = before ++ ([], t) :: after → (∀ l ∈ after, l.1 ≠ []) →
    ticks.all = t
  all_absent : (∀ l ∈ labelled, l.1 ≠ []) → ticks.all = ⟨0, 0⟩
  perCpu : ticks.perCpu = labelled.filterMap fun l => (Numeral.read32 l.1).toOption.map (·, l.2)
  cpu?_iff : ∀ cpu t, ticks.cpu? cpu = some t ↔ ∃ before after,
    ticks.perCpu = before ++ (cpu, t) :: after ∧ ∀ entry ∈ before, entry.1 ≠ cpu

/-- What reading a file with these CPU lines in front comes to. -/
structure CpuSectionLaw (contents : Bytes) (front : List Bytes) : Prop where
  ok_iff_fit : (∃ ticks, read contents = .ok ticks) ↔
    ∀ line ∈ front, ∀ label columns, CpuLine line label columns → FitFrom 0 (columns.take 8)
  ticks : ∀ {ticks}, read contents = .ok ticks →
    ∃ labelled, List.Forall₂ LineTicks front labelled ∧ Sorted labelled ticks
  busy_le : ∀ {ticks}, read contents = .ok ticks → ticks.all.busy ≤ ticks.all.total ∧
    ∀ entry ∈ ticks.perCpu, entry.2.busy ≤ entry.2.total
  error_iff : ∀ e, read contents = .error e ↔ ItemFaults.First LineFault front e
  unread : ∀ {contents' front'}, CpuSection (lines contents') front' →
    List.Forall₂ SameTicks front front' → read contents' = read contents

variable {contents : Bytes} {line : Bytes} {label : Text} {columns : List Text}
  {front rest tail : List Bytes} {labelled : List (Text × CpuTicks)} {ticks : HostTicks}

theorem cpuLine?_eq_some_iff {text : Text} : cpuLine? text = some (label, columns) ↔
    text.words = ("cpu".toList ++ label) :: columns := by
  unfold cpuLine?
  split
  · rename_i label' columns' hwords
    rw [hwords, Option.some.injEq, Prod.mk.injEq]
    constructor
    · rintro ⟨rfl, rfl⟩
      rfl
    · intro hsame
      obtain ⟨hfirst, rfl⟩ := List.cons.inj hsame
      have hlabel : "cpu".toList ++ label' = "cpu".toList ++ label := hfirst
      exact ⟨List.append_cancel_left hlabel, rfl⟩
  · rename_i hother
    exact iff_of_false nofun (hother label columns)

theorem CpuLine.unique {label' : Text} {columns' : List Text} (h : CpuLine line label columns)
    (h' : CpuLine line label' columns') : label = label' ∧ columns = columns' := by
  obtain ⟨text, htext, hwords⟩ := h
  obtain ⟨text', htext', hwords'⟩ := h'
  obtain rfl := Option.some.inj (htext.symm.trans htext')
  obtain ⟨hfirst, rfl⟩ := List.cons.inj (hwords.symm.trans hwords')
  exact ⟨List.append_cancel_left hfirst, rfl⟩

theorem CpuSection.exists_tail {ls : List Bytes} (h : CpuSection ls front) :
    ∃ tail, ls = front ++ tail ∧ ∀ number, readLines number tail = .ok [] := by
  obtain ⟨tail, rfl⟩ := h.isPrefix
  refine ⟨tail, rfl, fun number => ?_⟩
  cases tail with
  | nil => rfl
  | cons line rest =>
      obtain ⟨⟨text, htext⟩, hother⟩ := h.ended line rest rfl
      rw [readLines, lineText, htext]
      dsimp only
      cases hcpu : cpuLine? text with
      | none => rfl
      | some cpu => exact absurd ⟨text, htext, cpuLine?_eq_some_iff.1 hcpu⟩ (hother cpu.1 cpu.2)

theorem readLines_cpuLine (h : CpuLine line label columns) (number : Nat) (rest : List Bytes) :
    readLines number (line :: rest) = (do
      let ticks ← CpuTicks.read number columns
      let others ← readLines (number + 1) rest
      pure ((label, ticks) :: others)) := by
  obtain ⟨text, htext, hwords⟩ := h
  rw [readLines, lineText, htext]
  dsimp only
  rw [cpuLine?_eq_some_iff.2 hwords]

theorem lineFault_single : ItemFaults.Single LineFault := by
  rintro before line e e' ⟨label, columns, hline, hfirst⟩ ⟨label', columns', hline', hfirst'⟩
  obtain ⟨rfl, rfl⟩ := hline.unique hline'
  exact hfirst.unique CpuTicks.columnFault_single hfirst'

theorem outcome_line {before : List Bytes} (hclear : ItemFaults.Clear LineFault before)
    (hline : CpuLine line label columns) :
    ItemFaults.Outcome LineFault (fun ticks => LineTicks line (label, ticks)) (before ++ [line])
      (CpuTicks.read (before.length + 1) columns) := by
  have hcolumns := CpuTicks.outcome_read (before.length + 1) columns
  cases hread : CpuTicks.read (before.length + 1) columns with
  | error e =>
      rw [hread] at hcolumns
      exact ItemFaults.First.concat hclear ⟨label, columns, hline, hcolumns⟩
  | ok ticks =>
      rw [hread] at hcolumns
      obtain ⟨hclearColumns, values, hvalues, htally⟩ := hcolumns
      refine ⟨ItemFaults.clear_concat_iff.2 ⟨hclear, ?_⟩, columns, values, hline, hvalues, htally⟩
      rintro e ⟨label', columns', hline', hfirst⟩
      obtain ⟨rfl, rfl⟩ := hline.unique hline'
      exact hfirst.not_clear hclearColumns

/-- Reading goes over the CPU lines one after the other and keeps that those before are in order. -/
theorem outcome_readLines (htail : ∀ number, readLines number tail = .ok []) (rest : List Bytes) :
    ∀ {before : List Bytes}, (∀ line ∈ rest, ∃ label columns, CpuLine line label columns) →
      ItemFaults.Clear LineFault before →
        ItemFaults.Outcome LineFault (List.Forall₂ LineTicks rest) (before ++ rest)
          (readLines (before.length + 1) (rest ++ tail)) := by
  induction rest with
  | nil =>
      intro before _ hclear
      rw [List.append_nil, List.nil_append, htail]
      exact ⟨hclear, .nil⟩
  | cons line rest ih =>
      intro before hcpu hclear
      obtain ⟨⟨label, columns, hline⟩, hrest⟩ := List.forall_mem_cons.1 hcpu
      rw [List.cons_append, readLines_cpuLine hline, List.append_cons]
      refine (outcome_line hclear hline).bind ⟨rest, rfl⟩ fun ticks hclear' hticks => ?_
      have hothers := ih hrest hclear'
      rw [List.length_append, List.length_singleton] at hothers
      exact hothers.bind List.prefix_rfl fun others hall hothers => ⟨hall, .cons hticks hothers⟩

theorem outcome_read (h : CpuSection (lines contents) front) :
    ItemFaults.Outcome LineFault
      (fun ticks => ∃ labelled, List.Forall₂ LineTicks front labelled ∧ ticks = ofLines labelled)
      front (read contents) := by
  obtain ⟨tail, hlines, htail⟩ := h.exists_tail
  rw [read, hlines]
  refine (outcome_readLines htail front h.cpu ItemFaults.clear_nil).bind List.prefix_rfl ?_
  exact fun labelled hclear hlabelled => ⟨hclear, labelled, hlabelled, rfl⟩

theorem sorted_ofLines (labelled : List (Text × CpuTicks)) :
    Sorted labelled (ofLines labelled) where
  all_last := by
    rintro before t after rfl hafter
    have hrest : after.filter (·.1.isEmpty) = [] := by
      refine List.filter_eq_nil_iff.2 fun l hl hempty => hafter l hl ?_
      exact List.isEmpty_iff.1 hempty
    have hlast : (before ++ ([], t) :: after).filter (·.1.isEmpty) =
        before.filter (·.1.isEmpty) ++ [([], t)] := by
      rw [List.filter_append, List.filter_cons, hrest]
      rfl
    rw [ofLines, hlast, List.getLast?_concat]
    rfl
  all_absent := by
    intro hlabels
    have hnone : labelled.filter (·.1.isEmpty) = [] := by
      refine List.filter_eq_nil_iff.2 fun l hl hempty => hlabels l hl ?_
      exact List.isEmpty_iff.1 hempty
    rw [ofLines, hnone]
    rfl
  perCpu := rfl
  cpu?_iff := by
    intro cpu t
    rw [cpu?, List.lookup_eq_some_iff]
    simp only [bne_iff_ne, ne_comm]

theorem busy_le_of_lineTicks (h : List.Forall₂ LineTicks front labelled) :
    ∀ l ∈ labelled, l.2.busy ≤ l.2.total := by
  induction h with
  | nil => exact nofun
  | cons hline _ ih =>
      obtain ⟨columns, values, -, -, htally⟩ := hline
      exact List.forall_mem_cons.2 ⟨htally.busy_le, ih⟩

theorem busy_le_ofLines (h : ∀ l ∈ labelled, l.2.busy ≤ l.2.total) :
    (ofLines labelled).all.busy ≤ (ofLines labelled).all.total ∧
      ∀ entry ∈ (ofLines labelled).perCpu, entry.2.busy ≤ entry.2.total := by
  constructor
  · unfold ofLines
    cases hlast : (labelled.filter (·.1.isEmpty)).getLast? with
    | none => exact UInt64.le_refl 0
    | some l => exact h l (List.mem_of_mem_filter (List.mem_of_getLast? hlast))
  · intro entry hentry
    obtain ⟨l, hl, hcpu⟩ := List.mem_filterMap.1 hentry
    obtain ⟨cpu, -, rfl⟩ := Option.map_eq_some_iff.1 hcpu
    exact h l hl

theorem LineFault.not_fit {before : List Bytes} {e : TickError} (h : LineFault before line e) :
    ∃ label columns, CpuLine line label columns ∧ ¬FitFrom 0 (columns.take 8) := by
  obtain ⟨label, columns, hline, hfirst⟩ := h
  refine ⟨label, columns, hline, fun hfit => ?_⟩
  obtain ⟨ticks, hread⟩ := (read_columns_iff (before.length + 1) columns).1.2 hfit
  have hcolumns := CpuTicks.outcome_read (before.length + 1) columns
  rw [hread] at hcolumns
  exact hfirst.not_clear hcolumns.1

theorem fit_of_lineTicks (h : List.Forall₂ LineTicks front labelled) :
    ∀ line ∈ front, ∀ label columns, CpuLine line label columns →
      FitFrom 0 (columns.take 8) := by
  induction h with
  | nil => exact nofun
  | @cons line entry _ _ hline _ ih =>
      refine List.forall_mem_cons.2 ⟨fun label columns hcpu => ?_, ih⟩
      obtain ⟨columns', values, hcpu', hvalues, htally⟩ := hline
      obtain ⟨-, rfl⟩ := hcpu.unique hcpu'
      refine ⟨values, hvalues, ?_⟩
      rw [Nat.zero_add, ← htally.total]
      exact entry.2.total.toNat_lt_size

theorem readLines_eq_of_sameTicks {front' tail' : List Bytes}
    (htail : ∀ number, readLines number tail = .ok [])
    (htail' : ∀ number, readLines number tail' = .ok [])
    (hsame : List.Forall₂ SameTicks front front') : ∀ number,
      readLines number (front' ++ tail') = readLines number (front ++ tail) := by
  induction hsame with
  | nil =>
      intro number
      rw [List.nil_append, List.nil_append, htail, htail']
  | cons hline _ ih =>
      intro number
      obtain ⟨label, columns, columns', hline, hline', height⟩ := hline
      rw [List.cons_append, List.cons_append, readLines_cpuLine hline, readLines_cpuLine hline',
        CpuTicks.read, CpuTicks.read, tickColumns, height, ih (number + 1)]

theorem exists_cpuSection (ls : List Bytes) (h : ∀ line ∈ ls, IsText line) :
    ∃ front, CpuSection ls front := by
  induction ls with
  | nil => exact ⟨[], List.prefix_rfl, nofun, nofun⟩
  | cons line rest ih =>
      obtain ⟨hline, hrest⟩ := List.forall_mem_cons.1 h
      by_cases hcpu : ∃ label columns, CpuLine line label columns
      · obtain ⟨front, hfront⟩ := ih hrest
        refine ⟨line :: front, List.cons_prefix_cons.2 ⟨rfl, hfront.isPrefix⟩,
          List.forall_mem_cons.2 ⟨hcpu, hfront.cpu⟩, fun line' rest' hsplit => ?_⟩
        exact hfront.ended line' rest' (List.cons.inj hsplit).2
      · refine ⟨[], List.nil_prefix, nofun, fun line' rest' hsplit => ?_⟩
        obtain ⟨rfl, -⟩ := List.cons.inj hsplit
        exact ⟨hline, fun label columns hline => hcpu ⟨label, columns, hline⟩⟩

theorem labelled_of_read (hsection : CpuSection (lines contents) front)
    (hread : read contents = .ok ticks) :
    ∃ labelled, List.Forall₂ LineTicks front labelled ∧ ticks = ofLines labelled := by
  have houtcome := outcome_read hsection
  rw [hread] at houtcome
  exact houtcome.2

theorem read_ok_iff_fit (hsection : CpuSection (lines contents) front) :
    (∃ ticks, read contents = .ok ticks) ↔
      ∀ line ∈ front, ∀ label columns, CpuLine line label columns →
        FitFrom 0 (columns.take 8) := by
  constructor
  · rintro ⟨ticks, hread⟩
    obtain ⟨labelled, hlabelled, -⟩ := labelled_of_read hsection hread
    exact fit_of_lineTicks hlabelled
  · intro hfit
    cases hread : read contents with
    | ok ticks => exact ⟨ticks, rfl⟩
    | error e =>
        obtain ⟨before, line, after, rfl, -, hfault⟩ :=
          ((outcome_read hsection).error_iff lineFault_single).1 hread
        obtain ⟨label, columns, hcpu, hnot⟩ := hfault.not_fit
        have hline : line ∈ before ++ line :: after := List.mem_append_right _ List.mem_cons_self
        exact absurd (hfit line hline label columns hcpu) hnot

theorem read_eq_of_sameTicks {contents' : Bytes} {front' : List Bytes}
    (hsection : CpuSection (lines contents) front)
    (hsection' : CpuSection (lines contents') front')
    (hsame : List.Forall₂ SameTicks front front') : read contents' = read contents := by
  obtain ⟨tail, hlines, htail⟩ := hsection.exists_tail
  obtain ⟨tail', hlines', htail'⟩ := hsection'.exists_tail
  rw [read, read, hlines, hlines', readLines_eq_of_sameTicks htail htail' hsame]

/-- A `stat` file is read as its CPU lines in front say, and as nothing else in it does. -/
theorem cpuSectionLaw :
    (∀ contents, (∀ line ∈ lines contents, IsText line) →
      ∃ front, CpuSection (lines contents) front) ∧
    ∀ contents front, CpuSection (lines contents) front → CpuSectionLaw contents front := by
  refine ⟨fun contents => exists_cpuSection (lines contents), fun contents front hsection => ?_⟩
  refine ⟨read_ok_iff_fit hsection, ?_, ?_,
    fun _ => (outcome_read hsection).error_iff lineFault_single,
    fun hsection' => read_eq_of_sameTicks hsection hsection'⟩
  · intro ticks hread
    obtain ⟨labelled, hlabelled, rfl⟩ := labelled_of_read hsection hread
    exact ⟨labelled, hlabelled, sorted_ofLines labelled⟩
  · intro ticks hread
    obtain ⟨labelled, hlabelled, rfl⟩ := labelled_of_read hsection hread
    exact busy_le_ofLines (busy_le_of_lineTicks hlabelled)

/-- The ninth column of a CPU is not looked at, nor are CPU lines behind an empty line. -/
theorem read_behind_empty_line :
    CpuSection (lines (Utf8.encode "cpu  7 1 0 90\ncpu0 7 1 2 3 4 5 6 7 x\n\ncpu1 y".toList))
        [Utf8.encode "cpu  7 1 0 90".toList, Utf8.encode "cpu0 7 1 2 3 4 5 6 7 x".toList] ∧
      HostTicks.read (Utf8.encode "cpu  7 1 0 90\ncpu0 7 1 2 3 4 5 6 7 x\n\ncpu1 y".toList) =
        .ok ⟨⟨8, 98⟩, [(0, ⟨28, 35⟩)]⟩ := by
  have hall : CpuLine (Utf8.encode "cpu  7 1 0 90".toList) [] (Text.words "7 1 0 90".toList) :=
    ⟨"cpu  7 1 0 90".toList, by decide, by decide⟩
  have hlong : CpuLine (Utf8.encode "cpu0 7 1 2 3 4 5 6 7 x".toList) ['0']
      (Text.words "7 1 2 3 4 5 6 7 x".toList) :=
    ⟨"cpu0 7 1 2 3 4 5 6 7 x".toList, by decide, by decide⟩
  have hshort : CpuLine (Utf8.encode "cpu0 7 1 2 3 4 5 6 7".toList) ['0']
      (Text.words "7 1 2 3 4 5 6 7".toList) :=
    ⟨"cpu0 7 1 2 3 4 5 6 7".toList, by decide, by decide⟩
  have hlines : lines (Utf8.encode "cpu  7 1 0 90\ncpu0 7 1 2 3 4 5 6 7 x\n\ncpu1 y".toList) =
      [Utf8.encode "cpu  7 1 0 90".toList, Utf8.encode "cpu0 7 1 2 3 4 5 6 7 x".toList] ++
        [] :: [Utf8.encode "cpu1 y".toList] := by decide
  have hlines' : lines (Utf8.encode "cpu  7 1 0 90\ncpu0 7 1 2 3 4 5 6 7".toList) =
      [Utf8.encode "cpu  7 1 0 90".toList, Utf8.encode "cpu0 7 1 2 3 4 5 6 7".toList] := by decide
  have hsection : CpuSection
      (lines (Utf8.encode "cpu  7 1 0 90\ncpu0 7 1 2 3 4 5 6 7 x\n\ncpu1 y".toList))
      [Utf8.encode "cpu  7 1 0 90".toList, Utf8.encode "cpu0 7 1 2 3 4 5 6 7 x".toList] := by
    rw [hlines]
    refine ⟨List.prefix_append _ _, List.forall_mem_cons.2
      ⟨⟨_, _, hall⟩, List.forall_mem_singleton.2 ⟨_, _, hlong⟩⟩, fun line rest hsplit => ?_⟩
    obtain ⟨rfl, -⟩ := List.cons.inj (List.append_cancel_left hsplit)
    refine ⟨⟨[], rfl⟩, ?_⟩
    rintro label columns ⟨text, htext, hwords⟩
    obtain rfl : [] = text := Option.some.inj htext
    cases hwords
  have hsection' : CpuSection (lines (Utf8.encode "cpu  7 1 0 90\ncpu0 7 1 2 3 4 5 6 7".toList))
      [Utf8.encode "cpu  7 1 0 90".toList, Utf8.encode "cpu0 7 1 2 3 4 5 6 7".toList] := by
    rw [hlines']
    refine ⟨List.prefix_rfl, List.forall_mem_cons.2
      ⟨⟨_, _, hall⟩, List.forall_mem_singleton.2 ⟨_, _, hshort⟩⟩, fun line rest hsplit => ?_⟩
    exact absurd (List.append_right_eq_self.1 hsplit.symm) (List.cons_ne_nil line rest)
  refine ⟨hsection, ?_⟩
  have hread := (cpuSectionLaw.2 _ _ hsection').unread hsection
    (.cons ⟨_, _, _, hall, hall, rfl⟩ (.cons ⟨_, _, _, hshort, hlong, by decide⟩ .nil))
  exact hread.trans (by decide)

end HostTicks

end ResourceMetrics
