import Mathlib.Data.List.Induction
import Mathlib.Data.Nat.Find
import ResourceMetrics.KeyValue
import ResourceMetrics.Proofs.FileLines
import ResourceMetrics.Proofs.FirstFault

/-! Files of keys and values, line by line. A line gives a value under one known key or under none.
Reading goes over the lines up to the one with which the last known key has been named; what it has
seen are the keys that these lines name, and what it has built is told from the numbers that they
give. The two ways of reading, with keys that may repeat and with keys that may not, differ only in
what counts as a fault and in where reading stops. -/

namespace ResourceMetrics

/-- A word that stands for a key: the key itself, or the key with one colon behind it. -/
inductive KeyWord (key : Text) : Text → Prop
  | bare : key.getLast? ≠ some ':' → KeyWord key key
  | colon : KeyWord key (key ++ [':'])

theorem keyWord_iff {key word : Text} :
    KeyWord key word ↔ (if word.getLast? = some ':' then word.dropLast else word) = key := by
  constructor
  · rintro (hbare | -)
    · exact if_neg hbare
    · rw [List.getLast?_concat, if_pos rfl, List.dropLast_concat]
  · rintro rfl
    split
    case isTrue hcolon =>
      obtain ⟨key, rfl⟩ := List.getLast?_eq_some_iff.1 hcolon
      rw [List.dropLast_concat]
      exact .colon
    case isFalse hbare => exact .bare hbare

theorem keyValue?_eq_some_iff {text key value : Text} : keyValue? text = some (key, value) ↔
    ∃ word more, text.words = word :: value :: more ∧ KeyWord key word := by
  simp only [keyWord_iff]
  unfold keyValue?
  split
  · rename_i word value' more hwords
    rw [hwords, Option.some.injEq, Prod.mk.injEq]
    constructor
    · rintro ⟨hkey, rfl⟩
      exact ⟨word, more, rfl, hkey⟩
    · rintro ⟨word', more', hsame, hkey⟩
      obtain ⟨rfl, hrest⟩ := List.cons.inj hsame
      obtain ⟨rfl, -⟩ := List.cons.inj hrest
      exact ⟨hkey, rfl⟩
  · rename_i hshort
    refine iff_of_false nofun ?_
    rintro ⟨word, more, hwords, -⟩
    exact hshort word value more hwords

namespace KeyTable

variable {α : Type} (table : KeyTable α)

def Known (key : Text) : Prop := key ∈ table.fields.map (·.1)

/-- A line of at least two words whose first one stands for a known key. -/
def Gives (line : Bytes) (key value : Text) : Prop :=
  table.Known key ∧ ∃ text word more,
    Utf8.decode? line = some text ∧ text.words = word :: value :: more ∧ KeyWord key word

def Names (line : Bytes) (key : Text) : Prop := ∃ value, table.Gives line key value

/-- What is wrong with a line that comes after others. Of a value that is no number and a key that
was named before, the value counts. -/
inductive LineFault (before : List Bytes) (line : Bytes) : StatError → Prop
  | notText : Utf8.decode? line = none → LineFault before line .notUtf8
  | value {key value : Text} {cause : NumeralError} : table.Gives line key value →
      Numeral.read64 value = .error cause →
        LineFault before line (.invalidKeyValue key value (before.length + 1) cause)
  | repeated {key value : Text} {n : Counter} : table.repeats = false →
      table.Gives line key value → Numeral.read64 value = .ok n →
      (∃ line' ∈ before, table.Names line' key) →
        LineFault before line (.duplicateField key (before.length + 1))

/-- The lines with which reading stops: every known key is among them, and none may come again. -/
def Finished (ls : List Bytes) : Prop :=
  table.repeats = false ∧ ∀ key, table.Known key → ∃ line ∈ ls, table.Names line key

/-- Lines that are all in order. -/
structure Sound (ls : List Bytes) : Prop where
  text : ∀ line ∈ ls, IsText line
  value : ∀ line ∈ ls, ∀ key value, table.Gives line key value →
    ∃ n, Numeral.read64 value = .ok n
  once : table.repeats = false →
    ls.Pairwise fun line line' => ∀ key, table.Names line key → ¬table.Names line' key

/-- The shortest first lines with which reading stops, all lines if it never does. -/
structure Needed (ls front : List Bytes) : Prop where
  isPrefix : front <+: ls
  finished_or_all : table.Finished front ∨ front = ls
  shortest : ∀ shorter, shorter <+: ls → table.Finished shorter → front.length ≤ shorter.length

/-- The known key of a line with the number under it. -/
def number? (line : Bytes) : Option (Text × Counter) := do
  let text ← Utf8.decode? line
  let (key, value, _) ← table.entry? text
  let n ← (Numeral.read64 value).toOption
  pure (key, n)

/-- The numbers that lines give, in order. -/
def numbers (ls : List Bytes) : List (Text × Counter) := ls.filterMap table.number?

/-- Does with a number what the table says of its key. -/
def put (result : α) (entry : Text × Counter) : α :=
  match table.handler? entry.1 with
  | some handle => handle result entry.2
  | none => result

/-- Goes on from a result with the numbers that lines give. -/
def putAll (result : α) (ls : List Bytes) : α := (table.numbers ls).foldl table.put result

variable {table} {line : Bytes} {key value : Text}

theorem known_iff : table.Known key ↔ ∃ handle, table.handler? key = some handle := by
  unfold Known handler?
  rw [← Option.ne_none_iff_exists', ne_eq, List.lookup_eq_none_iff, List.mem_map]
  simp

theorem gives_iff {text : Text} (htext : Utf8.decode? line = some text) :
    table.Gives line key value ↔ ∃ handle, table.entry? text = some (key, value, handle) := by
  have hentry : (∃ handle, table.entry? text = some (key, value, handle)) ↔
      keyValue? text = some (key, value) ∧ table.Known key := by
    rw [known_iff]
    unfold entry?
    constructor
    · rintro ⟨handle, h⟩
      obtain ⟨⟨key', value'⟩, hpair, h⟩ := Option.bind_eq_some_iff.1 h
      obtain ⟨handle', hhandle, h⟩ := Option.bind_eq_some_iff.1 h
      cases h
      exact ⟨hpair, handle, hhandle⟩
    · rintro ⟨hpair, handle, hhandle⟩
      exact ⟨handle, Option.bind_eq_some_iff.2 ⟨_, hpair,
        Option.bind_eq_some_iff.2 ⟨handle, hhandle, rfl⟩⟩⟩
  rw [hentry, keyValue?_eq_some_iff, and_comm]
  unfold Gives
  constructor
  · rintro ⟨hknown, text', word, more, htext', hwords⟩
    obtain rfl := Option.some.inj (htext.symm.trans htext')
    exact ⟨hknown, word, more, hwords⟩
  · rintro ⟨hknown, word, more, hwords⟩
    exact ⟨hknown, text, word, more, htext, hwords⟩

theorem Gives.isText (h : table.Gives line key value) : IsText line := by
  obtain ⟨-, text, -, -, htext, -⟩ := h
  exact ⟨text, htext⟩

theorem Gives.decode?_ne_none (h : table.Gives line key value) : Utf8.decode? line ≠ none := by
  obtain ⟨text, htext⟩ := h.isText
  rw [htext]
  exact Option.some_ne_none text

/-- A line gives one value under one key at most. -/
theorem Gives.unique {key' value' : Text} (h : table.Gives line key value)
    (h' : table.Gives line key' value') : key = key' ∧ value = value' := by
  obtain ⟨text, htext⟩ := h.isText
  obtain ⟨handle, hentry⟩ := (gives_iff htext).1 h
  obtain ⟨handle', hentry'⟩ := (gives_iff htext).1 h'
  cases hentry.symm.trans hentry'
  exact ⟨rfl, rfl⟩

theorem number?_eq_some_iff {n : Counter} : table.number? line = some (key, n) ↔
    ∃ value, table.Gives line key value ∧ Numeral.read64 value = .ok n := by
  unfold number?
  constructor
  · intro h
    obtain ⟨text, htext, h⟩ := Option.bind_eq_some_iff.1 h
    obtain ⟨⟨key', value, handle⟩, hentry, h⟩ := Option.bind_eq_some_iff.1 h
    obtain ⟨n', hn, h⟩ := Option.bind_eq_some_iff.1 h
    cases h
    refine ⟨value, (gives_iff htext).2 ⟨handle, hentry⟩, ?_⟩
    cases hread : Numeral.read64 value with
    | error cause =>
        rw [hread] at hn
        cases hn
    | ok n' =>
        rw [hread] at hn
        cases hn
        rfl
  · rintro ⟨value, hgives, hn⟩
    obtain ⟨text, htext⟩ := hgives.isText
    obtain ⟨handle, hentry⟩ := (gives_iff htext).1 hgives
    rw [htext]
    refine Option.bind_eq_some_iff.2 ⟨text, rfl, ?_⟩
    rw [hentry]
    refine Option.bind_eq_some_iff.2 ⟨(key, value, handle), rfl, ?_⟩
    dsimp only
    rw [hn]
    rfl

theorem names_of_number? {n : Counter} (h : table.number? line = some (key, n)) :
    table.Names line key := by
  obtain ⟨value, hgives, -⟩ := number?_eq_some_iff.1 h
  exact ⟨value, hgives⟩

theorem number?_eq_none (h : ∀ key, ¬table.Names line key) : table.number? line = none :=
  Option.eq_none_iff_forall_ne_some.2 fun entry hnumber => h entry.1 (names_of_number? hnumber)

theorem lineFault_single : ItemFaults.Single table.LineFault := by
  intro before line e e' h h'
  cases h with
  | notText hnone =>
      cases h' with
      | notText => rfl
      | value hgives | repeated _ hgives => exact absurd hnone hgives.decode?_ne_none
  | value hgives hread =>
      cases h' with
      | notText hnone => exact absurd hnone hgives.decode?_ne_none
      | value hgives' hread' =>
          obtain ⟨rfl, rfl⟩ := hgives.unique hgives'
          cases hread.symm.trans hread'
          rfl
      | repeated _ hgives' hread' =>
          obtain ⟨rfl, rfl⟩ := hgives.unique hgives'
          cases hread.symm.trans hread'
  | repeated _ hgives hread =>
      cases h' with
      | notText hnone => exact absurd hnone hgives.decode?_ne_none
      | value hgives' hread' =>
          obtain ⟨rfl, rfl⟩ := hgives.unique hgives'
          cases hread.symm.trans hread'
      | repeated _ hgives' =>
          obtain ⟨rfl, rfl⟩ := hgives.unique hgives'
          rfl

theorem sound_nil : table.Sound [] := ⟨nofun, nofun, fun _ => .nil⟩

theorem sound_concat_iff {ls : List Bytes} :
    table.Sound (ls ++ [line]) ↔ table.Sound ls ∧ ∀ e, ¬table.LineFault ls line e := by
  constructor
  · rintro ⟨htext, hvalue, honce⟩
    have hlast : line ∈ ls ++ [line] := List.mem_append_right ls List.mem_cons_self
    refine ⟨⟨fun l hl => htext l (List.mem_append_left _ hl),
      fun l hl => hvalue l (List.mem_append_left _ hl),
      fun hrepeats => (List.pairwise_append.1 (honce hrepeats)).1⟩, ?_⟩
    intro e hfault
    cases hfault with
    | notText hnone =>
        obtain ⟨text, htext⟩ := htext line hlast
        cases hnone.symm.trans htext
    | value hgives hread =>
        obtain ⟨n, hn⟩ := hvalue line hlast _ _ hgives
        cases hread.symm.trans hn
    | repeated hrepeats hgives _ hnamed =>
        obtain ⟨l, hl, hnames⟩ := hnamed
        obtain ⟨-, -, hacross⟩ := List.pairwise_append.1 (honce hrepeats)
        exact hacross l hl line (List.mem_singleton_self line) _ hnames ⟨_, hgives⟩
  · rintro ⟨⟨htext, hvalue, honce⟩, hfault⟩
    have hread (key value : Text) (hgives : table.Gives line key value) :
        ∃ n, Numeral.read64 value = .ok n := by
      cases hread : Numeral.read64 value with
      | error cause => exact absurd (.value hgives hread) (hfault _)
      | ok n => exact ⟨n, rfl⟩
    refine ⟨List.forall_mem_append.2 ⟨htext, List.forall_mem_singleton.2 ?_⟩,
      List.forall_mem_append.2 ⟨hvalue, List.forall_mem_singleton.2 hread⟩,
      fun hrepeats => List.pairwise_append.2 ⟨honce hrepeats, List.pairwise_singleton _ _, ?_⟩⟩
    · cases htext : Utf8.decode? line with
      | none => exact absurd (.notText htext) (hfault _)
      | some text => exact ⟨text, htext⟩
    · intro l hl line' hline' key hnames hnames'
      obtain rfl := List.mem_singleton.1 hline'
      obtain ⟨value, hgives⟩ := hnames'
      obtain ⟨n, hn⟩ := hread key value hgives
      exact hfault _ (.repeated hrepeats hgives hn ⟨l, hl, hnames⟩)

/-- Lines of which none is at fault are those that are in order. -/
theorem clear_iff_sound {ls : List Bytes} :
    ItemFaults.Clear table.LineFault ls ↔ table.Sound ls := by
  induction ls using List.reverseRecOn with
  | nil => exact iff_of_true ItemFaults.clear_nil sound_nil
  | append_singleton ls line ih => rw [ItemFaults.clear_concat_iff, sound_concat_iff, ih]

theorem numbers_append (ls ls' : List Bytes) :
    table.numbers (ls ++ ls') = table.numbers ls ++ table.numbers ls' :=
  List.filterMap_append

theorem putAll_append (result : α) (ls ls' : List Bytes) :
    table.putAll result (ls ++ ls') = table.putAll (table.putAll result ls) ls' := by
  rw [putAll, numbers_append, List.foldl_append]
  rfl

/-- The number of a line is put where the handler of its key puts it. -/
theorem putAll_singleton {text : Text} {handle : α → Counter → α} {n : Counter} (result : α)
    (htext : Utf8.decode? line = some text) (hentry : table.entry? text = some (key, value, handle))
    (hread : Numeral.read64 value = .ok n) : table.putAll result [line] = handle result n := by
  have hhandle : table.handler? key = some handle := by
    obtain ⟨⟨key', value'⟩, -, h⟩ := Option.bind_eq_some_iff.1 hentry
    obtain ⟨handle', hhandle, h⟩ := Option.bind_eq_some_iff.1 h
    cases h
    exact hhandle
  have hnumber : table.number? line = some (key, n) :=
    number?_eq_some_iff.2 ⟨value, (gives_iff htext).2 ⟨handle, hentry⟩, hread⟩
  rw [putAll, numbers, List.filterMap_cons_some hnumber, List.filterMap_nil, List.foldl_cons,
    List.foldl_nil, put, hhandle]

variable (table) in
/-- The keys that were seen are those that the lines before name. -/
def Tracks (seen : List Text) (before : List Bytes) : Prop :=
  ∀ key, key ∈ seen ↔ ∃ line ∈ before, table.Names line key

variable {before : List Bytes} {seen : List Text}

theorem Tracks.skip (h : table.Tracks seen before) (hline : ∀ key, ¬table.Names line key) :
    table.Tracks seen (before ++ [line]) := by
  intro key
  rw [h key]
  simp only [List.mem_append, List.mem_singleton, or_and_right, exists_or, exists_eq_left,
    or_iff_left (hline key)]

theorem Tracks.take (h : table.Tracks seen before) (hline : table.Gives line key value) :
    table.Tracks (key :: seen) (before ++ [line]) := by
  intro key'
  have hnames : table.Names line key' ↔ key' = key := by
    constructor
    · rintro ⟨value', hgives⟩
      exact (hgives.unique hline).1
    · rintro rfl
      exact ⟨value, hline⟩
  rw [List.mem_cons, h key']
  simp only [List.mem_append, List.mem_singleton, or_and_right, exists_or, exists_eq_left, hnames]
  exact or_comm

theorem Tracks.stops_iff (h : table.Tracks seen before) :
    (!table.repeats && table.complete seen) = true ↔ table.Finished before := by
  rw [Bool.and_eq_true, Bool.not_eq_true', complete, List.all_eq_true, Finished,
    and_congr_right_iff]
  intro _
  unfold Known
  simp only [List.contains_iff_mem, List.forall_mem_map, h _]

/-- A line of text is at fault, or it goes into what was seen and built. -/
theorem outcome_step (hclear : ItemFaults.Clear table.LineFault before)
    (hseen : table.Tracks seen before) (result : α) {text : Text}
    (htext : Utf8.decode? line = some text) :
    ItemFaults.Outcome table.LineFault
      (fun taken => table.Tracks taken.1 (before ++ [line]) ∧ taken.2 = table.putAll result [line])
      (before ++ [line]) (table.step (before.length + 1) seen result text) := by
  unfold step
  cases hentry : table.entry? text with
  | none =>
      have hnames : ∀ key, ¬table.Names line key := by
        rintro key ⟨value, hgives⟩
        obtain ⟨handle, h⟩ := (gives_iff htext).1 hgives
        cases hentry.symm.trans h
      have hnumbers : table.putAll result [line] = result := by
        rw [putAll, numbers, List.filterMap_cons_none (number?_eq_none hnames)]
        rfl
      refine ⟨ItemFaults.clear_concat_iff.2 ⟨hclear, ?_⟩, hseen.skip hnames, hnumbers.symm⟩
      intro e hfault
      cases hfault with
      | notText hnone => cases htext.symm.trans hnone
      | value hgives | repeated _ hgives => exact hnames _ ⟨_, hgives⟩
  | some entry =>
      obtain ⟨key, value, handle⟩ := entry
      have hgives : table.Gives line key value := (gives_iff htext).2 ⟨handle, hentry⟩
      dsimp only
      cases hread : Numeral.read64 value with
      | error cause => exact ItemFaults.First.concat hclear (.value hgives hread)
      | ok n =>
          dsimp only
          by_cases hagain : (!table.repeats && seen.contains key) = true
          · obtain ⟨hrepeats, hkey⟩ := Bool.and_eq_true_iff.1 hagain
            rw [Bool.not_eq_true'] at hrepeats
            rw [List.contains_iff_mem, hseen key] at hkey
            rw [if_pos hagain]
            exact ItemFaults.First.concat hclear (.repeated hrepeats hgives hread hkey)
          · rw [if_neg hagain]
            refine ⟨ItemFaults.clear_concat_iff.2 ⟨hclear, ?_⟩, hseen.take hgives,
              (putAll_singleton result htext hentry hread).symm⟩
            intro e hfault
            cases hfault with
            | notText hnone => cases htext.symm.trans hnone
            | value hgives' hread' =>
                obtain ⟨rfl, rfl⟩ := hgives.unique hgives'
                cases hread.symm.trans hread'
            | repeated hrepeats hgives' _ hnames =>
                obtain ⟨rfl, rfl⟩ := hgives.unique hgives'
                rw [← hseen key, ← List.contains_iff_mem] at hnames
                exact hagain (by rw [hrepeats, hnames]; rfl)

theorem not_finished_nil (hfields : table.fields ≠ []) : ¬table.Finished [] := by
  rintro ⟨-, hall⟩
  obtain ⟨field, fields, hcons⟩ := List.exists_cons_of_ne_nil hfields
  have hknown : table.Known field.1 := by
    rw [Known, hcons]
    exact List.mem_cons_self
  obtain ⟨line, hline, -⟩ := hall field.1 hknown
  exact absurd hline List.not_mem_nil

variable (table) in
theorem exists_needed (ls : List Bytes) : ∃ front, table.Needed ls front := by
  classical
  by_cases h : ∃ n, table.Finished (ls.take n)
  · refine ⟨ls.take (Nat.find h), List.take_prefix _ _, Or.inl (Nat.find_spec h), ?_⟩
    intro shorter hshorter hfinished
    rw [List.prefix_iff_eq_take.1 hshorter] at hfinished
    exact Nat.le_trans (List.length_take_le _ _) (Nat.find_min' h hfinished)
  · refine ⟨ls, List.prefix_rfl, Or.inr rfl, ?_⟩
    intro shorter hshorter hfinished
    rw [List.prefix_iff_eq_take.1 hshorter] at hfinished
    exact absurd ⟨shorter.length, hfinished⟩ h

/-- A line is needed as long as reading has not stopped before it. -/
theorem Needed.concat_isPrefix {rest front : List Bytes}
    (h : table.Needed (before ++ line :: rest) front) (hbefore : before <+: front)
    (hfinished : ¬table.Finished before) : before ++ [line] <+: front := by
  obtain ⟨more, rfl⟩ := hbefore
  have hmore : more <+: line :: rest := (List.prefix_append_right_inj before).1 h.isPrefix
  cases more with
  | nil =>
      rw [List.append_nil] at h
      obtain hdone | hall := h.finished_or_all
      · exact absurd hdone hfinished
      · exact absurd (List.append_right_eq_self.1 hall.symm) (List.cons_ne_nil line rest)
  | cons first more =>
      obtain ⟨rfl, -⟩ := List.cons_prefix_cons.1 hmore
      exact ⟨more, (List.append_cons before first more).symm⟩

/-- Reading goes on as far as it needs to. It keeps that the lines before are in order, that what
was seen are their keys and that what was built is told from their numbers. -/
theorem outcome_readLines {front : List Bytes} (rest : List Bytes) :
    ∀ {before : List Bytes} {seen : List Text}, table.Tracks seen before →
      ItemFaults.Clear table.LineFault before → ¬table.Finished before → before <+: front →
      table.Needed (before ++ rest) front →
        ItemFaults.Outcome table.LineFault (· = table.putAll table.initial front) front
          (table.readLines (before.length + 1) seen (table.putAll table.initial before) rest) := by
  induction rest with
  | nil =>
      intro before seen _ hclear _ hbefore hneeded
      rw [List.append_nil] at hneeded
      obtain rfl : front = before := hneeded.isPrefix.eq_of_length_le hbefore.length_le
      exact ⟨hclear, rfl⟩
  | cons line rest ih =>
      intro before seen hseen hclear hfinished hbefore hneeded
      have hline : before ++ [line] <+: front := hneeded.concat_isPrefix hbefore hfinished
      rw [readLines, lineText]
      cases htext : Utf8.decode? line with
      | none =>
          obtain ⟨more, rfl⟩ := hline
          exact (ItemFaults.First.concat hclear (.notText htext)).append more
      | some text =>
          have hstep := outcome_step hclear hseen (table.putAll table.initial before) htext
          refine hstep.bind hline fun taken hclear' htaken => ?_
          obtain ⟨seen', result'⟩ := taken
          obtain ⟨hseen', rfl⟩ := htaken
          dsimp only
          rw [← putAll_append]
          by_cases hstop : (!table.repeats && table.complete seen') = true
          · -- with this line all keys have been named, so it is the last one that is needed
            have hdone : table.Finished (before ++ [line]) := hseen'.stops_iff.1 hstop
            have hwhole : before ++ [line] <+: before ++ line :: rest :=
              ⟨rest, (List.append_cons before line rest).symm⟩
            obtain rfl : before ++ [line] = front :=
              hline.eq_of_length_le (hneeded.shortest _ hwhole hdone)
            rw [if_pos hstop]
            exact ⟨hclear', rfl⟩
          · have hgoes : ¬table.Finished (before ++ [line]) := mt hseen'.stops_iff.2 hstop
            have hrest := ih hseen' hclear' hgoes hline (by rwa [← List.append_cons])
            rw [List.length_append, List.length_singleton] at hrest
            rw [if_neg hstop]
            exact hrest

theorem outcome_read (hstart : ¬table.Finished []) {contents : Bytes} {front : List Bytes}
    (hneeded : table.Needed (lines contents) front) :
    ItemFaults.Outcome table.LineFault (· = table.putAll table.initial front) front
      (table.read contents) :=
  outcome_readLines (lines contents) (fun _ => by simp)
    ItemFaults.clear_nil hstart List.nil_prefix hneeded

variable {contents : Bytes} {front : List Bytes} {result : α} {e : StatError}

theorem read_eq_ok_iff (hstart : ¬table.Finished [])
    (hneeded : table.Needed (lines contents) front) :
    table.read contents = .ok result ↔
      table.Sound front ∧ result = table.putAll table.initial front := by
  rw [(outcome_read hstart hneeded).ok_iff fun b b' hb hb' => hb.trans hb'.symm, clear_iff_sound]

theorem read_eq_error_iff (hstart : ¬table.Finished [])
    (hneeded : table.Needed (lines contents) front) :
    table.read contents = .error e ↔ ItemFaults.First table.LineFault front e :=
  (outcome_read hstart hneeded).error_iff lineFault_single

end KeyTable

end ResourceMetrics
