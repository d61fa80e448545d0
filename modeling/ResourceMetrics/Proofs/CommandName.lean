import ResourceMetrics.ProcessStat
import ResourceMetrics.Proofs.FileLines
import ResourceMetrics.Proofs.FirstFault

/-! The stat line of a process and the command name in it. The name may hold anything but a newline:
fields are counted from the last closing parenthesis, so what stands before it only shows where an
error quotes the line. Behind it three fields have to be numbers, and the first of them that is
absent or no number decides. -/

namespace ResourceMetrics

/-- The text of the first line, with or without a newline behind it. -/
structure FirstLine (contents : Bytes) (line : Text) : Prop where
  newline_notMem : '\n' ∉ line
  starts : contents = Utf8.encode line ∨ ∃ tail, contents = Utf8.encode line ++ newline :: tail

theorem FirstLine.firstLine_eq {contents : Bytes} {line : Text} (h : FirstLine contents line) :
    firstLine contents = .ok line := by
  have hnewline := Utf8.newline_notMem_encode h.newline_notMem
  have hhead : (lines contents).headD [] = Utf8.encode line := by
    obtain rfl | ⟨tail, rfl⟩ := h.starts
    · by_cases hempty : Utf8.encode line = []
      · rw [hempty]
        rfl
      · rw [lines_singleton hnewline hempty]
        rfl
    · rw [lines_line hnewline]
      rfl
  rw [firstLine, hhead, lineText, Utf8.decode?_encode]

namespace Text

theorem afterLast?_eq_none {sep : Char} {t : Text} (h : sep ∉ t) : t.afterLast? sep = none := by
  induction t with
  | nil => rfl
  | cons c cs ih =>
      obtain ⟨hc, hcs⟩ := not_or.1 (mt List.mem_cons.2 h)
      rw [afterLast?, ih hcs]
      exact if_neg (Ne.symm hc)

/-- What stands before the last separator does not matter, further separators included. -/
theorem afterLast?_append {sep : Char} {rest : Text} (h : sep ∉ rest) (t : Text) :
    afterLast? sep (t ++ sep :: rest) = some rest := by
  induction t with
  | nil =>
      rw [List.nil_append, afterLast?, afterLast?_eq_none h]
      exact if_pos rfl
  | cons c cs ih => rw [List.cons_append, afterLast?, ih]

end Text

namespace ProcessStat

/-- A field is the number `n`. -/
def FieldIs (fields : List Text) (index : Nat) (n : Counter) : Prop :=
  ∃ t, fields[index]? = some t ∧ Numeral.read64 t = .ok n

/-- The three fields that matter are numbers, as they go into the result. -/
def FieldsAre (fields : List Text) (stat : ProcessStat) : Prop :=
  FieldIs fields 11 stat.userTicks ∧ FieldIs fields 12 stat.systemTicks ∧
    FieldIs fields 20 stat.virtualBytes

/-- What is wrong with a field of a line; the fields that are read before it do not count. -/
inductive FieldFault (line : Text) (fields : List Text) (before : List Nat) (index : Nat) :
    StatError → Prop
  | absent : fields.length ≤ index →
      FieldFault line fields before index (.truncatedProcessLine line)
  | invalid {t : Text} {cause : NumeralError} : fields[index]? = some t →
      Numeral.read64 t = .error cause →
        FieldFault line fields before index (.invalidValue t 1 cause)

/-- An error without the line that it quotes. -/
def unquoted : StatError → StatError
  | .truncatedProcessLine _ => .truncatedProcessLine []
  | e => e

/-- What reading a line with this text behind the command name comes to, whatever the name is. -/
structure CommandNameLaw (rest : Text) : Prop where
  ok_iff : ∀ {contents name}, FirstLine contents (name ++ ')' :: rest) → ∀ stat,
    read contents = .ok stat ↔ 21 ≤ rest.words.length ∧ FieldsAre rest.words stat
  error_iff : ∀ {contents name}, FirstLine contents (name ++ ')' :: rest) → ∀ e,
    read contents = .error e ↔
      ItemFaults.First (FieldFault (name ++ ')' :: rest) rest.words) [11, 12, 20] e
  name_free : ∀ {contents contents' name name'}, FirstLine contents (name ++ ')' :: rest) →
    FirstLine contents' (name' ++ ')' :: rest) →
      (read contents').mapError unquoted = (read contents).mapError unquoted

variable {line line' : Text} {fields : List Text} {contents : Bytes} {before : List Nat}
  {index : Nat} {stat : ProcessStat}

theorem read_eq_ofLine (h : FirstLine contents line) : read contents = ofLine line := by
  rw [read, h.firstLine_eq]
  rfl

theorem ofLine_append {rest : Text} (hrest : ')' ∉ rest) (name : Text) :
    ofLine (name ++ ')' :: rest) = (do
      let userTicks ← readField (name ++ ')' :: rest) rest.words 11
      let systemTicks ← readField (name ++ ')' :: rest) rest.words 12
      let virtualBytes ← readField (name ++ ')' :: rest) rest.words 20
      pure ⟨userTicks, systemTicks, virtualBytes⟩) := by
  rw [ofLine, Text.afterLast?_append hrest]
  rfl

theorem FieldIs.unique {n n' : Counter} (h : FieldIs fields index n)
    (h' : FieldIs fields index n') : n = n' := by
  obtain ⟨t, ht, hn⟩ := h
  obtain ⟨t', ht', hn'⟩ := h'
  obtain rfl := Option.some.inj (ht.symm.trans ht')
  exact Except.ok.inj (hn.symm.trans hn')

theorem FieldIs.not_fault {n : Counter} (h : FieldIs fields index n) (e : StatError) :
    ¬FieldFault line fields before index e := by
  obtain ⟨t, ht, hn⟩ := h
  intro hfault
  cases hfault with
  | absent hlength =>
      rw [List.getElem?_eq_none hlength] at ht
      cases ht
  | invalid ht' hcause =>
      obtain rfl := Option.some.inj (ht.symm.trans ht')
      cases hn.symm.trans hcause

theorem fieldFault_single : ItemFaults.Single (FieldFault line fields) := by
  intro before index e e' h h'
  cases h with
  | absent hlength =>
      cases h' with
      | absent => rfl
      | invalid ht =>
          rw [List.getElem?_eq_none hlength] at ht
          cases ht
  | invalid ht hcause =>
      cases h' with
      | absent hlength =>
          rw [List.getElem?_eq_none hlength] at ht
          cases ht
      | invalid ht' hcause' =>
          obtain rfl := Option.some.inj (ht.symm.trans ht')
          cases hcause.symm.trans hcause'
          rfl

theorem outcome_readField (hclear : ItemFaults.Clear (FieldFault line fields) before) :
    ItemFaults.Outcome (FieldFault line fields) (FieldIs fields index) (before ++ [index])
      (readField line fields index) := by
  rw [readField]
  cases ht : fields[index]? with
  | none => exact ItemFaults.First.concat hclear (.absent (List.getElem?_eq_none_iff.1 ht))
  | some t =>
      dsimp only [readValue]
      cases hn : Numeral.read64 t with
      | error cause => exact ItemFaults.First.concat hclear (.invalid ht hn)
      | ok n =>
          have hfield : FieldIs fields index n := ⟨t, ht, hn⟩
          exact ⟨ItemFaults.clear_concat_iff.2 ⟨hclear, hfield.not_fault⟩, hfield⟩

theorem outcome_ofLine {rest : Text} (hrest : ')' ∉ rest) (name : Text) :
    ItemFaults.Outcome (FieldFault (name ++ ')' :: rest) rest.words) (FieldsAre rest.words)
      [11, 12, 20] (ofLine (name ++ ')' :: rest)) := by
  rw [ofLine_append hrest]
  refine (outcome_readField ItemFaults.clear_nil).bind ⟨[12, 20], rfl⟩ fun user hclear huser => ?_
  refine (outcome_readField hclear).bind ⟨[20], rfl⟩ fun system hclear hsystem => ?_
  refine (outcome_readField hclear).bind List.prefix_rfl fun size hclear hsize => ?_
  exact ⟨hclear, huser, hsystem, hsize⟩

theorem FieldsAre.unique {stat' : ProcessStat} (h : FieldsAre fields stat)
    (h' : FieldsAre fields stat') : stat = stat' := by
  obtain ⟨huser, hsystem, hsize⟩ := h
  obtain ⟨huser', hsystem', hsize'⟩ := h'
  cases stat
  cases stat'
  rw [mk.injEq]
  exact ⟨huser.unique huser', hsystem.unique hsystem', hsize.unique hsize'⟩

theorem FieldIs.lt_length {n : Counter} (h : FieldIs fields index n) : index < fields.length := by
  obtain ⟨t, ht, -⟩ := h
  exact (List.getElem?_eq_some_iff.1 ht).1

theorem clear_of_fieldsAre (h : FieldsAre fields stat) :
    ItemFaults.Clear (FieldFault line fields) [11, 12, 20] := by
  obtain ⟨huser, hsystem, hsize⟩ := h
  intro before index after hsplit e
  have hindex : index ∈ [11, 12, 20] := hsplit ▸ List.mem_append_right before List.mem_cons_self
  simp only [List.mem_cons, List.not_mem_nil, or_false] at hindex
  obtain rfl | rfl | rfl := hindex
  · exact huser.not_fault e
  · exact hsystem.not_fault e
  · exact hsize.not_fault e

theorem mapError_bind_congr {ε ε' β γ : Type} {g : ε → ε'} {x x' : Except ε β}
    {f f' : β → Except ε γ} (hx : x'.mapError g = x.mapError g)
    (hf : ∀ b, (f' b).mapError g = (f b).mapError g) :
    (x' >>= f').mapError g = (x >>= f).mapError g := by
  cases x with
  | error e =>
      cases x' with
      | error e' => exact congrArg Except.error (Except.error.inj hx)
      | ok b' => cases hx
  | ok b =>
      cases x' with
      | error e' => cases hx
      | ok b' =>
          obtain rfl := Except.ok.inj hx
          exact hf b'

theorem readField_unquoted (line line' : Text) (fields : List Text) (index : Nat) :
    (readField line' fields index).mapError unquoted =
      (readField line fields index).mapError unquoted := by
  unfold readField
  cases fields[index]? with
  | none => rfl
  | some t => rfl

theorem ofLine_unquoted {rest : Text} (hrest : ')' ∉ rest) (name name' : Text) :
    (ofLine (name' ++ ')' :: rest)).mapError unquoted =
      (ofLine (name ++ ')' :: rest)).mapError unquoted := by
  rw [ofLine_append hrest, ofLine_append hrest]
  refine mapError_bind_congr (readField_unquoted _ _ _ _) fun _ => ?_
  refine mapError_bind_congr (readField_unquoted _ _ _ _) fun _ => ?_
  exact mapError_bind_congr (readField_unquoted _ _ _ _) fun _ => rfl

theorem ofLine_eq_ok_iff {rest : Text} (hrest : ')' ∉ rest) (name : Text) :
    ofLine (name ++ ')' :: rest) = .ok stat ↔
      21 ≤ rest.words.length ∧ FieldsAre rest.words stat := by
  rw [(outcome_ofLine hrest name).ok_iff fun _ _ h h' => h.unique h']
  constructor
  · rintro ⟨-, hfields⟩
    exact ⟨hfields.2.2.lt_length, hfields⟩
  · rintro ⟨-, hfields⟩
    exact ⟨clear_of_fieldsAre hfields, hfields⟩

/-- The stat line of a process is read from its last closing parenthesis on, and not at all if it
has none. -/
theorem commandNameLaw : (∀ rest, ')' ∉ rest → CommandNameLaw rest) ∧
    ∀ contents line, FirstLine contents line → ')' ∉ line →
      read contents = .error (.truncatedProcessLine line) := by
  refine ⟨fun rest hrest => ⟨?_, ?_, ?_⟩, fun contents line hfirst hline => ?_⟩
  · intro contents name hfirst stat
    rw [read_eq_ofLine hfirst, ofLine_eq_ok_iff hrest]
  · intro contents name hfirst e
    rw [read_eq_ofLine hfirst]
    exact (outcome_ofLine hrest name).error_iff fieldFault_single
  · intro contents contents' name name' hfirst hfirst'
    rw [read_eq_ofLine hfirst, read_eq_ofLine hfirst']
    exact ofLine_unquoted hrest name name'
  · rw [read_eq_ofLine hfirst, ofLine, Text.afterLast?_eq_none hline]

/-- A command name that imitates a whole line, with bytes behind the line that are no text. -/
theorem read_imitating_name :
    ')' ∉ " S 1 2 3 0 -1 4 5 0 0 0 150 30 0 0 20 0 8 0 6 9876 7".toList ∧
      read (Utf8.encode ("42 (x) S 1 2 3 0 -1 4 5 0 0 0 1 1 0 0 0 0 0 0 0 1 (y".toList ++
        ')' :: " S 1 2 3 0 -1 4 5 0 0 0 150 30 0 0 20 0 8 0 6 9876 7".toList) ++
          newline :: [0xFF]) = .ok ⟨150, 30, 9876⟩ := by
  have hrest : ')' ∉ " S 1 2 3 0 -1 4 5 0 0 0 150 30 0 0 20 0 8 0 6 9876 7".toList := by decide
  have hfirst : FirstLine
      (Utf8.encode ("42 (x) S 1 2 3 0 -1 4 5 0 0 0 1 1 0 0 0 0 0 0 0 1 (y".toList ++
        ')' :: " S 1 2 3 0 -1 4 5 0 0 0 150 30 0 0 20 0 8 0 6 9876 7".toList) ++
          newline :: [0xFF])
      ("42 (x) S 1 2 3 0 -1 4 5 0 0 0 1 1 0 0 0 0 0 0 0 1 (y".toList ++
        ')' :: " S 1 2 3 0 -1 4 5 0 0 0 150 30 0 0 20 0 8 0 6 9876 7".toList) :=
    ⟨by decide, Or.inr ⟨[0xFF], rfl⟩⟩
  refine ⟨hrest, ((commandNameLaw.1 _ hrest).ok_iff hfirst _).2 ⟨by decide, ?_, ?_, ?_⟩⟩
  · exact ⟨"150".toList, by decide, rfl⟩
  · exact ⟨"30".toList, by decide, rfl⟩
  · exact ⟨"9876".toList, by decide, rfl⟩

end ProcessStat

end ResourceMetrics
