import Mathlib.Data.List.Forall2
import Mathlib.Data.List.TakeDrop
import ResourceMetrics.Proofs.DecimalText
import ResourceMetrics.Proofs.MountLine
import ResourceMetrics.Proofs.MonitorCalls

/-! The text of a snapshot, read back as an object whose values are literals and numbers. No comma
stands within a member, so the members are what lies between the commas: a name in quotes, a colon
and the text of the value. -/

namespace ResourceMetrics

namespace SnapshotJson

open NumberText (integer? integer?_write integer?_integer number? number?_load)

/-- A member of an object: its name and the text of its value. -/
def member? : Text → Option (Text × Text)
  | '"' :: rest =>
    match rest.span (· ≠ '"') with
    | (name, '"' :: ':' :: value) => some (name, value)
    | _ => none
  | _ => none

/-- The members of an object, none of which contains a comma, in the order of the text. -/
def object? : Text → Option (List (Text × Text))
  | '\x7b' :: rest =>
    if rest.getLast? = some '\x7d' then (rest.dropLast.splitOn ',').mapM member? else none
  | _ => none

/-- A text stands for a value: by a literal, by digits, or by a number with the sign of the load and
the value of a shortest decimal that reads back as its magnitude. There is no number for a load that
is not finite. -/
inductive Spells : Text → MetricValue Binary64 → Prop
  | yes : Spells "true".toList (.flag true)
  | no : Spells "false".toList (.flag false)
  | processors {t : Text} {n : UInt32} : integer? t = some (n.toNat : Int) →
      Spells t (.processors n)
  | amount {t : Text} {n : Int} : integer? t = some n → Spells t (.amount n)
  | load {t : Text} {x : Binary64} {d s : Decimal} : x.isFinite = true →
      number? t = some (x.isNegative, d) → d.value = s.value → x.parts.Shortest s →
        Spells t (.load x)
  | null {x : Binary64} : x.isFinite = false → Spells "null".toList (.load x)

/-- The names of the fields, in the order of their declaration. -/
def fieldNames : List String :=
  ["container_present", "available_processors", "total_swap_space_size", "free_swap_space_size",
    "total_physical_memory_size", "free_physical_memory_size", "system_cpu_load",
    "process_cpu_load", "process_cpu_time", "committed_virtual_memory_size",
    "open_file_descriptor_count", "max_file_descriptor_count"]

/-- A text is an object with the fields of a snapshot in order, each with its value. -/
def Represents (t : Text) (s : Snapshot Binary64) : Prop :=
  ∃ values : List Text, object? t = some ((fieldNames.map String.toList).zip values) ∧
    List.Forall₂ Spells values (Metric.all.map s.value)

theorem comma_notMem_write (n : Nat) : ',' ∉ Numeral.write n :=
  fun h => absurd (Numeral.toNat_of_mem_write h).1 (by decide)

theorem comma_notMem_integer (n : Int) : ',' ∉ integer n := by
  unfold integer
  split <;> simp [comma_notMem_write]

theorem comma_notMem_boolean (b : Bool) : ',' ∉ boolean b := by
  cases b <;> decide

theorem comma_notMem_zeros (n : Nat) : ',' ∉ zeros n := by
  simp [zeros, List.mem_replicate]

theorem comma_notMem_plain {digits : Text} (h : ',' ∉ digits) (power : Int) :
    ',' ∉ plain digits power := by
  have htake (n : Nat) : ',' ∉ digits.take n := fun hmem => h (List.mem_of_mem_take hmem)
  have hdrop (n : Nat) : ',' ∉ digits.drop n := fun hmem => h (List.mem_of_mem_drop hmem)
  unfold plain
  split
  · simp [comma_notMem_zeros, h]
  · rename_i n
    have hfraction : ',' ∉ if (digits.drop (n + 1)).isEmpty then zeros 1
        else digits.drop (n + 1) := by
      split
      · exact comma_notMem_zeros 1
      · exact hdrop (n + 1)
    simp only [List.mem_append, List.mem_cons, not_or]
    exact ⟨⟨htake _, comma_notMem_zeros _⟩, by decide, hfraction⟩

theorem comma_notMem_scientific {digits : Text} (h : ',' ∉ digits) (power : Int) :
    ',' ∉ scientific digits power := by
  have htake : ',' ∉ digits.take 1 := fun hmem => h (List.mem_of_mem_take hmem)
  have hdrop : ',' ∉ digits.drop 1 := fun hmem => h (List.mem_of_mem_drop hmem)
  have hfraction : ',' ∉ if (digits.drop 1).isEmpty then [] else '.' :: digits.drop 1 := by
    split
    · exact List.not_mem_nil
    · exact List.not_mem_cons_of_ne_of_not_mem (by decide) hdrop
  have hexponent : ',' ∉ 'e' :: (if power < 0 then '-' else '+') :: Numeral.write power.natAbs := by
    split <;> simp [comma_notMem_write]
  unfold scientific
  simp only [List.mem_append, not_or]
  exact ⟨⟨htake, hfraction⟩, hexponent⟩

theorem comma_notMem_decimal (d : Decimal) : ',' ∉ decimal d := by
  unfold decimal
  dsimp only
  split
  · exact comma_notMem_plain (comma_notMem_write d.digits) _
  · exact comma_notMem_scientific (comma_notMem_write d.digits) _

theorem comma_notMem_load (x : Binary64) : ',' ∉ load x := by
  have hmagnitude : ',' ∉ magnitude x.parts := by
    unfold magnitude
    split
    · decide
    · exact comma_notMem_decimal _
  unfold load
  split
  · split <;> simp [hmagnitude]
  · decide

/-- The texts of the values of a snapshot. -/
def valueTexts (s : Snapshot Binary64) : List Text := (fields s).map (·.2)

theorem fields_eq_zip (s : Snapshot Binary64) : fields s = fieldNames.zip (valueTexts s) := rfl

theorem spells_integer (n : Int) : Spells (integer n) (.amount n) := .amount (integer?_integer n)

theorem spells_load (x : Binary64) : Spells (load x) (.load x) := by
  cases hfinite : x.isFinite with
  | true =>
      obtain ⟨d, s, hread, hvalue, hshortest⟩ := number?_load hfinite
      exact .load hfinite hread hvalue hshortest
  | false =>
      rw [load, if_neg (by simp [hfinite])]
      exact .null hfinite

theorem spells_valueTexts (s : Snapshot Binary64) :
    List.Forall₂ Spells (valueTexts s) (Metric.all.map s.value) := by
  have hflag (b : Bool) : Spells (boolean b) (.flag b) := by
    cases b with
    | true => exact .yes
    | false => exact .no
  have hprocessors (n : UInt32) : Spells (Numeral.write n.toNat) (.processors n) :=
    .processors (integer?_write n.toNat)
  exact .cons (hflag _) (.cons (hprocessors _) (.cons (spells_integer _) (.cons (spells_integer _)
    (.cons (spells_integer _) (.cons (spells_integer _) (.cons (spells_load _)
    (.cons (spells_load _) (.cons (spells_integer _) (.cons (spells_integer _)
    (.cons (spells_integer _) (.cons (spells_integer _) .nil)))))))))))

theorem comma_notMem_valueTexts (s : Snapshot Binary64) : ∀ t ∈ valueTexts s, ',' ∉ t := by
  simp [valueTexts, fields, comma_notMem_boolean, comma_notMem_write, comma_notMem_integer,
    comma_notMem_load]

theorem member?_field {f : String × Text} (h : '"' ∉ f.1.toList) :
    member? (field f) = some (f.1.toList, f.2) := by
  have hname : ∀ c ∈ f.1.toList, (c ≠ '"' : Bool) = true := by
    intro c hc
    exact decide_eq_true fun hquote => h (hquote ▸ hc)
  have hspan : (f.1.toList ++ '"' :: ':' :: f.2).span (· ≠ '"') =
      (f.1.toList, '"' :: ':' :: f.2) := by
    rw [List.span_eq_takeWhile_dropWhile, List.takeWhile_append_of_pos hname,
      List.dropWhile_append_of_pos hname]
    simp
  unfold field member?
  simp only [List.cons_append, hspan]

theorem mapM_member?_map_field {fs : List (String × Text)} (h : ∀ f ∈ fs, '"' ∉ f.1.toList) :
    (fs.map field).mapM member? = some (fs.map fun f => (f.1.toList, f.2)) := by
  induction fs with
  | nil => rfl
  | cons f rest ih =>
      obtain ⟨hf, hrest⟩ := List.forall_mem_cons.1 h
      rw [List.map_cons, List.mapM_cons, member?_field hf, ih hrest]
      rfl

theorem comma_notMem_field {f : String × Text} (hname : ',' ∉ f.1.toList) (hvalue : ',' ∉ f.2) :
    ',' ∉ field f := by
  simp [field, hname, hvalue]

/-- Members that are clear of commas are told apart by them. -/
theorem object?_of_fields {fs : List (String × Text)} (hne : fs ≠ [])
    (hquote : ∀ f ∈ fs, '"' ∉ f.1.toList) (hcomma : ∀ f ∈ fs, ',' ∉ f.1.toList ∧ ',' ∉ f.2) :
    object? ('\x7b' :: [','].intercalate (fs.map field) ++ ['\x7d']) =
      some (fs.map fun f => (f.1.toList, f.2)) := by
  have hsplit : ([','].intercalate (fs.map field)).splitOn ',' = fs.map field := by
    apply List.splitOn_intercalate
    · intro t ht
      obtain ⟨f, hf, rfl⟩ := List.mem_map.1 ht
      exact comma_notMem_field (hcomma f hf).1 (hcomma f hf).2
    · simpa using hne
  rw [List.cons_append, object?, List.getLast?_concat, if_pos rfl, List.dropLast_concat, hsplit]
  exact mapM_member?_map_field hquote

theorem object?_write (s : Snapshot Binary64) :
    object? (write s) = some ((fieldNames.map String.toList).zip (valueTexts s)) := by
  have hnames : ∀ name ∈ fieldNames, '"' ∉ name.toList ∧ ',' ∉ name.toList := by decide +kernel
  have hfields {f : String × Text} (hf : f ∈ fields s) : f.1 ∈ fieldNames ∧ f.2 ∈ valueTexts s := by
    rw [fields_eq_zip] at hf
    exact ⟨(List.of_mem_zip hf).1, (List.of_mem_zip hf).2⟩
  exact object?_of_fields (List.cons_ne_nil _ _) (fun f hf => (hnames _ (hfields hf).1).1)
    fun f hf => ⟨(hnames _ (hfields hf).1).2, comma_notMem_valueTexts s _ (hfields hf).2⟩

/-- A snapshot is written as the object of its fields. -/
theorem represents_write (s : Snapshot Binary64) : Represents (write s) s :=
  ⟨valueTexts s, object?_write s, spells_valueTexts s⟩

namespace Spells

variable {t : Text}

theorem flag_unique {b c : Bool} (hb : Spells t (.flag b)) (hc : Spells t (.flag c)) : b = c := by
  generalize hv : MetricValue.flag b = v at hb
  cases hb with
  | yes =>
      cases hc with
      | yes => exact MetricValue.flag.inj hv
  | no =>
      cases hc with
      | no => exact MetricValue.flag.inj hv
  | _ => cases hv

theorem processors_unique {m n : UInt32} (hm : Spells t (.processors m))
    (hn : Spells t (.processors n)) : m = n := by
  cases hm with
  | processors hread =>
      cases hn with
      | processors hread' =>
          have hsame := Option.some.inj (hread.symm.trans hread')
          exact UInt32.toNat_inj.1 (Int.ofNat.inj hsame)

theorem amount_unique {m n : Int} (hm : Spells t (.amount m)) (hn : Spells t (.amount n)) :
    m = n := by
  cases hm with
  | amount hread =>
      cases hn with
      | amount hread' => exact Option.some.inj (hread.symm.trans hread')

/-- No two loads that are finite have a text in common. -/
theorem load_unique {x y : Binary64} (hx : Spells t (.load x)) (hy : Spells t (.load y))
    (hfinite : x.isFinite = true) : x = y := by
  have hnull : number? "null".toList = none := by decide
  cases hx with
  | null hnot => exact absurd hfinite (by simp [hnot])
  | load _ hread hvalue hshortest =>
      cases hy with
      | null _ => exact absurd (hnull.symm.trans hread) nofun
      | load _ hread' hvalue' hshortest' =>
          have hsame := hread.symm.trans hread'
          simp only [Option.some.injEq, Prod.mk.injEq] at hsame
          obtain ⟨hsign, rfl⟩ := hsame
          have hreads := hshortest.reads
          rw [← hvalue, hvalue'] at hreads
          exact Binary64.eq_of_parts_eq hsign
            (hreads.unique x.canonical_parts y.canonical_parts hshortest'.reads)

end Spells

theorem value_eq_of_spells {s s' : Snapshot Binary64} (hload : s.load.isFinite = true)
    (hprocess : s.processLoad.isFinite = true) {t : Text} (k : Metric)
    (h : Spells t (s.value k)) (h' : Spells t (s'.value k)) : s.value k = s'.value k := by
  cases k with
  | containerPresent => exact congrArg _ (h.flag_unique h')
  | availableProcessors => exact congrArg _ (h.processors_unique h')
  | load => exact congrArg _ (h.load_unique h' hload)
  | processLoad => exact congrArg _ (h.load_unique h' hprocess)
  | _ => exact congrArg _ (h.amount_unique h')

/-- A text tells the snapshot that it represents, if its loads are finite. -/
theorem Represents.unique {t : Text} {s s' : Snapshot Binary64} (h : Represents t s)
    (h' : Represents t s') (hload : s.load.isFinite = true)
    (hprocess : s.processLoad.isFinite = true) : s = s' := by
  obtain ⟨values, hobject, hvalues⟩ := h
  obtain ⟨values', hobject', hvalues'⟩ := h'
  have hlength {ts : List Text} {u : Snapshot Binary64}
      (hts : List.Forall₂ Spells ts (Metric.all.map u.value)) :
      ts.length ≤ (fieldNames.map String.toList).length := hts.length_eq.le
  have hzip := congrArg (List.map Prod.snd) (Option.some.inj (hobject.symm.trans hobject'))
  rw [List.map_snd_zip (hlength hvalues), List.map_snd_zip (hlength hvalues')] at hzip
  subst hzip
  rw [List.forall₂_map_right_iff] at hvalues hvalues'
  apply Snapshot.value_injective
  funext k
  obtain ⟨n, hn, hk⟩ := List.getElem_of_mem k.mem_all
  have hn' : n < values.length := hvalues.length_eq ▸ hn
  have hspells := hvalues.get hn' hn
  have hspells' := hvalues'.get hn' hn
  simp only [List.get_eq_getElem, hk] at hspells hspells'
  exact value_eq_of_spells hload hprocess k hspells hspells'

end SnapshotJson

end ResourceMetrics
