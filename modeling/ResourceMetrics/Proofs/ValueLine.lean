import ResourceMetrics.CpuLimit
import ResourceMetrics.Proofs.CheckedArithmetic
import ResourceMetrics.Proofs.CommandName
import ResourceMetrics.Proofs.MembershipFile
import ResourceMetrics.Proofs.MountLine
import ResourceMetrics.Proofs.NumeralText

/-! Interface files with a value on their first line: amounts, limits, weights and bandwidths. A
file is read exactly if its first line, less the blanks at its ends, is in the grammar of the
format, and then as the value that the grammar gives it. So what is written of a value is read back
with any blanks around it, and what stands behind the first newline is never looked at. -/

namespace ResourceMetrics

namespace Text

def Blanks (t : Text) : Prop := ∀ c ∈ t, isBlank c = true

/-- A text with no blank at its ends. -/
structure Trimmed (t : Text) : Prop where
  head : ∀ c ∈ t.head?, isBlank c = false
  last : ∀ c ∈ t.getLast?, isBlank c = false

/-- What is left of a line when the blanks at its ends are taken off. -/
structure Trims (line t : Text) : Prop extends Trimmed t where
  padded : ∃ before after, Blanks before ∧ Blanks after ∧ line = before ++ t ++ after

variable {line before t after : Text}

theorem trimmed_of_forall (h : ∀ c ∈ t, isBlank c = false) : Trimmed t where
  head c hc := h c (List.mem_of_mem_head? hc)
  last c hc := h c (List.mem_of_mem_getLast? hc)

theorem Trimmed.append {front back : Text} (hfront : Trimmed front) (hne : front ≠ [])
    (hback : Trimmed back) (hne' : back ≠ []) (c : Char) : Trimmed (front ++ c :: back) where
  head d hd := by
    rw [List.head?_append_of_ne_nil front hne] at hd
    exact hfront.head d hd
  last d hd := by
    rw [List.getLast?_append_of_ne_nil _ (List.cons_ne_nil c back),
      ← List.singleton_append, List.getLast?_append_of_ne_nil _ hne'] at hd
    exact hback.last d hd

theorem newline_notMem (h : ∀ c ∈ t, isBlank c = false) : '\n' ∉ t :=
  fun hmem => absurd (h '\n' hmem) (by decide)

theorem Trims.trim_eq (h : Trims line t) : line.trim = t := by
  obtain ⟨before, after, hbefore, hafter, rfl⟩ := h.padded
  have hstart : trimStart (before ++ t ++ after) = trimStart (t ++ after) := by
    rw [List.append_assoc]
    exact List.dropWhile_append_of_pos hbefore
  rw [trim, hstart]
  cases t with
  | nil =>
      have hnil : trimStart after = [] := List.dropWhile_eq_nil_iff.2 hafter
      rw [List.nil_append, hnil]
      rfl
  | cons c cs =>
      have hkeep : trimStart (c :: cs ++ after) = c :: cs ++ after :=
        List.dropWhile_cons_of_neg (by simp [h.head c rfl])
      have hnil : trimEnd after = [] := List.rdropWhile_eq_nil_iff.2 hafter
      rw [hkeep, trimEnd_append h.last, hnil, List.append_nil]

theorem trims_trim (line : Text) : Trims line line.trim where
  head c hc := by
    obtain ⟨rest, hrest⟩ := List.head?_eq_some_iff.1 hc
    obtain ⟨more, hmore⟩ : line.trim <+: line.trimStart := List.rdropWhile_prefix _ _
    have hstart : (line.dropWhile isBlank).head? = some c := by
      rw [← trimStart, ← hmore, hrest, List.cons_append, List.head?_cons]
    have hkept := List.head?_dropWhile_not isBlank line
    rwa [hstart] at hkept
  last := trimEnd_eq_self_iff.1 (List.rdropWhile_idempotent isBlank line.trimStart)
  padded := by
    have hend : line.trimStart = line.trim ++ line.trimStart.rtakeWhile isBlank := by
      calc line.trimStart
          = (line.trimStart.reverse.takeWhile isBlank ++
              line.trimStart.reverse.dropWhile isBlank).reverse := by
            rw [List.takeWhile_append_dropWhile, List.reverse_reverse]
        _ = line.trim ++ line.trimStart.rtakeWhile isBlank := List.reverse_append
    refine ⟨line.takeWhile isBlank, line.trimStart.rtakeWhile isBlank, ?_, ?_, ?_⟩
    · exact fun c => List.mem_takeWhile_imp
    · exact fun c => List.mem_rtakeWhile_imp
    · rw [List.append_assoc, ← hend]
      exact List.takeWhile_append_dropWhile.symm

theorem words_blanks_append (hbefore : Blanks before) (t : Text) :
    words (before ++ t) = words t := by
  induction before with
  | nil => rfl
  | cons c cs ih =>
      obtain ⟨hc, hcs⟩ := List.forall_mem_cons.1 hbefore
      calc words (c :: cs ++ t) = words [] ++ words (cs ++ t) := words_append_blank hc [] (cs ++ t)
        _ = words t := ih hcs

theorem words_append_blanks (t : Text) (hafter : Blanks after) :
    words (t ++ after) = words t := by
  cases after with
  | nil => rw [List.append_nil]
  | cons c cs =>
      obtain ⟨hc, hcs⟩ := List.forall_mem_cons.1 hafter
      have hnone : words cs = [] := by
        rw [← List.append_nil cs, words_blanks_append hcs]
        rfl
      rw [words_append_blank hc, hnone, List.append_nil]

/-- Blanks at its ends do not change the words of a line. -/
theorem words_trim (line : Text) : line.trim.words = line.words := by
  obtain ⟨before, after, hbefore, hafter, hline⟩ := (trims_trim line).padded
  conv_rhs => rw [hline]
  rw [words_append_blanks _ hafter, words_blanks_append hbefore]

end Text

/-- Contents that show a text: blanks on both sides of it, those before it on the same line, and
behind a newline anything. -/
def Shown (contents : Bytes) (t : Text) : Prop :=
  ∃ before after tail, contents = Utf8.encode (before ++ t ++ after) ++ tail ∧
    Text.Blanks before ∧ '\n' ∉ before ∧ Text.Blanks after ∧ (tail = [] ∨ '\n' ∈ after)

/-- What a reader of the first line takes, what it never looks at, and what it gets back. -/
structure LineFormat {β : Type} (read : Bytes → Except StatError β) (Grammar : Text → β → Prop)
    (write : β → Text) : Prop where
  ok_iff : ∀ {contents line t}, FirstLine contents line → Text.Trims line t →
    ∀ value, read contents = .ok value ↔ Grammar t value
  ignores_tail : ∀ {line}, newline ∉ line → ∀ tail, read (line ++ newline :: tail) = read line
  reads_back : ∀ {contents value}, Shown contents (write value) → read contents = .ok value

theorem firstLine_append {line : Bytes} (h : newline ∉ line) (tail : Bytes) :
    firstLine (line ++ newline :: tail) = firstLine line := by
  rw [firstLine, firstLine, lines_line h]
  by_cases hempty : line = []
  · rw [hempty]
    rfl
  · rw [lines_singleton h hempty]
    rfl

theorem Shown.exists_firstLine {contents : Bytes} {t : Text} (h : Shown contents t)
    (ht : t.Trimmed) (hnewline : '\n' ∉ t) :
    ∃ line, FirstLine contents line ∧ Text.Trims line t := by
  obtain ⟨before, after, tail, rfl, hbefore, hbefore', hafter, htail⟩ := h
  by_cases hbehind : '\n' ∈ after
  · -- the first newline behind the text ends its line
    obtain ⟨front, rest, rfl, hfront⟩ := List.eq_append_cons_of_mem hbehind
    have hblanks : Text.Blanks front := fun c hc => hafter c (List.mem_append_left _ hc)
    have hcut : Utf8.encode ('\n' :: rest) = newline :: Utf8.encode rest := rfl
    refine ⟨before ++ t ++ front, ⟨?_, Or.inr ⟨Utf8.encode rest ++ tail, ?_⟩⟩,
      ⟨ht, before, front, hbefore, hblanks, rfl⟩⟩
    · simp only [List.mem_append, not_or]
      exact ⟨⟨hbefore', hnewline⟩, hfront⟩
    · rw [← List.append_assoc, Utf8.encode_append, hcut, List.append_assoc, List.cons_append]
  · obtain rfl := htail.resolve_right hbehind
    refine ⟨before ++ t ++ after, ⟨?_, Or.inl (List.append_nil _)⟩,
      ⟨ht, before, after, hbefore, hafter, rfl⟩⟩
    simp only [List.mem_append, not_or]
    exact ⟨⟨hbefore', hnewline⟩, hbehind⟩

/-- A reader that goes by the text of the first line has a format if it takes lines by the grammar
of their trimmed text and what is written is in the grammar, trimmed and on one line. -/
theorem LineFormat.of_line {β : Type} {read : Bytes → Except StatError β}
    {ofLine : Text → Except StatError β} {Grammar : Text → β → Prop} {write : β → Text}
    (hread : ∀ contents, read contents = firstLine contents >>= ofLine)
    (hline : ∀ line value, ofLine line = .ok value ↔ Grammar line.trim value)
    (hwrite : ∀ value, Grammar (write value) value) (htrimmed : ∀ value, (write value).Trimmed)
    (hnewline : ∀ value, '\n' ∉ write value) : LineFormat read Grammar write := by
  have hok : ∀ {contents line t}, FirstLine contents line → Text.Trims line t →
      ∀ value, read contents = .ok value ↔ Grammar t value := by
    intro contents line t hfirst htrims value
    rw [hread, hfirst.firstLine_eq, ← htrims.trim_eq]
    exact hline line value
  refine ⟨hok, fun hline tail => ?_, fun {contents value} hshown => ?_⟩
  · rw [hread, hread, firstLine_append hline]
  · obtain ⟨line, hfirst, htrims⟩ := hshown.exists_firstLine (htrimmed value) (hnewline value)
    exact (hok hfirst htrims value).2 (hwrite value)

/-- What is written without blanks is trimmed and on one line. -/
theorem LineFormat.of_word {β : Type} {read : Bytes → Except StatError β}
    {ofLine : Text → Except StatError β} {Grammar : Text → β → Prop} {write : β → Text}
    (hread : ∀ contents, read contents = firstLine contents >>= ofLine)
    (hline : ∀ line value, ofLine line = .ok value ↔ Grammar line.trim value)
    (hwrite : ∀ value, Grammar (write value) value)
    (hblank : ∀ value, ∀ c ∈ write value, isBlank c = false) : LineFormat read Grammar write :=
  .of_line hread hline hwrite (fun value => Text.trimmed_of_forall (hblank value))
    fun value => Text.newline_notMem (hblank value)

/-- A counter as a numeral. -/
def Counter.Spells (t : Text) (n : Counter) : Prop := Numeral.Spells t n.toNat

def Counter.write (n : Counter) : Text := Numeral.write n.toNat

theorem readValue_eq_ok_iff {line : Nat} {t : Text} {n : Counter} :
    readValue line t = .ok n ↔ Counter.Spells t n := by
  rw [Counter.Spells, ← Numeral.read64_eq_ok_iff, readValue]
  cases Numeral.read64 t with
  | ok m => exact (Except.ok.injEq ..).to_iff.trans (Except.ok.injEq ..).to_iff.symm
  | error cause => exact iff_of_false nofun nofun

theorem Counter.write_ne_nil (n : Counter) : n.write ≠ [] := Nat.toDigits_ne_nil

theorem Counter.isBlank_of_mem_write {n : Counter} : ∀ c ∈ n.write, isBlank c = false :=
  fun _ => Numeral.isBlank_of_mem_write

namespace MemoryLimit

/-- No limit, or a counter as a numeral. -/
inductive Spells : Text → Option Counter → Prop
  | unlimited : Spells "max".toList none
  | amount {t : Text} {n : Counter} : Counter.Spells t n → Spells t (some n)

def write : Option Counter → Text
  | none => "max".toList
  | some n => n.write

theorem spells_write : ∀ limit, Spells (write limit) limit
  | none => .unlimited
  | some n => .amount (Numeral.spells_write n.toNat)

theorem write_ne_nil : ∀ limit, write limit ≠ []
  | none => by decide
  | some n => n.write_ne_nil

theorem isBlank_of_mem_write : ∀ limit, ∀ c ∈ write limit, isBlank c = false
  | none => Text.isBlank_of_all rfl
  | some _ => Counter.isBlank_of_mem_write

theorem not_spells_unlimitedWord (n : Counter) : ¬Counter.Spells unlimitedWord n := by
  intro h
  have hletter : 'm' ∈ unlimitedWord := by decide
  exact h.notMem (by decide) (by decide) hletter

/-- The word for no limit is looked for first, and is no numeral. -/
theorem readWord_eq_ok_iff {t : Text} {limit : Option Counter} :
    (if t = unlimitedWord then .ok none else some <$> readValue 1 t) = .ok limit ↔
      Spells t limit := by
  split
  case isTrue hword =>
    subst hword
    constructor
    · intro h
      obtain rfl := Except.ok.inj h
      exact .unlimited
    · intro h
      cases h with
      | unlimited => rfl
      | amount hn => exact absurd hn (not_spells_unlimitedWord _)
  case isFalse hword =>
    constructor
    · intro h
      cases hvalue : readValue 1 t with
      | error cause =>
          rw [hvalue] at h
          cases h
      | ok n =>
          rw [hvalue] at h
          obtain rfl := Except.ok.inj h
          exact .amount (readValue_eq_ok_iff.1 hvalue)
    · intro h
      cases h with
      | unlimited => exact absurd rfl hword
      | amount hn =>
          rw [readValue_eq_ok_iff.2 hn]
          rfl

end MemoryLimit

namespace CpuMax

/-- A word that may be missing and then stands for a value of its own. -/
def Optional {β : Type} (missing : β) (Grammar : Text → β → Prop) : Option Text → β → Prop
  | none, value => value = missing
  | some t, value => Grammar t value

/-- A quota and a period behind it; no quota is no limit, and a period is 100 ms unless said. -/
structure Spells (t : Text) (max : CpuMax) : Prop where
  quota : Optional none MemoryLimit.Spells t.words[0]? max.quota
  period : Optional 100000 Counter.Spells t.words[1]? max.period

def write (max : CpuMax) : Text := MemoryLimit.write max.quota ++ ' ' :: max.period.write

theorem readQuota_eq_ok_iff {word : Option Text} {quota : Option Counter} :
    readQuota word = .ok quota ↔ Optional none MemoryLimit.Spells word quota := by
  cases word with
  | none =>
      rw [readQuota, Except.ok.injEq]
      exact eq_comm
  | some t => exact MemoryLimit.readWord_eq_ok_iff

theorem readPeriod_eq_ok_iff {word : Option Text} {period : Counter} :
    readPeriod word = .ok period ↔ Optional 100000 Counter.Spells word period := by
  cases word with
  | none =>
      rw [readPeriod, Except.ok.injEq]
      exact eq_comm
  | some t => exact readValue_eq_ok_iff

def ofWords (words : List Text) : Except StatError CpuMax := do
  let quota ← readQuota words[0]?
  let period ← readPeriod words[1]?
  pure ⟨quota, period⟩

theorem ofWords_eq_ok_iff {line : Text} {max : CpuMax} :
    ofWords line.words = .ok max ↔ Spells line.trim max := by
  rw [ofWords, bind_eq_ok_iff]
  constructor
  · rintro ⟨quota, hquota, h⟩
    obtain ⟨period, hperiod, h⟩ := bind_eq_ok_iff.1 h
    obtain rfl := Except.ok.inj h
    refine ⟨?_, ?_⟩
    · rw [Text.words_trim]
      exact readQuota_eq_ok_iff.1 hquota
    · rw [Text.words_trim]
      exact readPeriod_eq_ok_iff.1 hperiod
  · rintro ⟨hquota, hperiod⟩
    rw [Text.words_trim] at hquota hperiod
    exact ⟨max.quota, readQuota_eq_ok_iff.2 hquota,
      bind_eq_ok_iff.2 ⟨max.period, readPeriod_eq_ok_iff.2 hperiod, rfl⟩⟩

/-- Words after the second are not looked at. -/
theorem ofWords_congr {words words' : List Text} (h : words'.take 2 = words.take 2) :
    ofWords words' = ofWords words := by
  have hword (i : Nat) (hi : i < 2) : words'[i]? = words[i]? := by
    rw [← List.getElem?_take_of_lt hi, h, List.getElem?_take_of_lt hi]
  rw [ofWords, ofWords, hword 0 (by decide), hword 1 (by decide)]

theorem words_write (max : CpuMax) :
    max.write.words = [MemoryLimit.write max.quota, max.period.write] := by
  rw [write, Text.words_append_blank (by decide),
    Text.words_of_forall (MemoryLimit.write_ne_nil _) (MemoryLimit.isBlank_of_mem_write _),
    Text.words_of_forall max.period.write_ne_nil Counter.isBlank_of_mem_write]
  rfl

theorem spells_write (max : CpuMax) : Spells max.write max where
  quota := by
    rw [words_write]
    exact MemoryLimit.spells_write max.quota
  period := by
    rw [words_write]
    exact Numeral.spells_write max.period.toNat

theorem trimmed_write (max : CpuMax) : Text.Trimmed max.write :=
  (Text.trimmed_of_forall (MemoryLimit.isBlank_of_mem_write _)).append (MemoryLimit.write_ne_nil _)
    (Text.trimmed_of_forall Counter.isBlank_of_mem_write) max.period.write_ne_nil ' '

theorem newline_notMem_write (max : CpuMax) : '\n' ∉ max.write := by
  simp only [write, List.mem_append, List.mem_cons, not_or]
  exact ⟨Text.newline_notMem (MemoryLimit.isBlank_of_mem_write _), by decide,
    Text.newline_notMem Counter.isBlank_of_mem_write⟩

end CpuMax

theorem MemoryAmount.lineFormat : LineFormat MemoryAmount.read Counter.Spells Counter.write :=
  .of_word (fun _ => rfl) (fun _ _ => readValue_eq_ok_iff) (fun n => Numeral.spells_write n.toNat)
    fun _ => Counter.isBlank_of_mem_write

theorem MemoryLimit.lineFormat : LineFormat MemoryLimit.read Spells write :=
  .of_word (fun _ => rfl) (fun _ _ => readWord_eq_ok_iff) spells_write isBlank_of_mem_write

theorem CpuWeight.lineFormat : LineFormat CpuWeight.read (fun t w => Counter.Spells t w.weight)
    (fun w => w.weight.write) := by
  refine .of_word (fun _ => rfl) (fun line w => ?_) (fun w => Numeral.spells_write w.weight.toNat)
    fun _ => Counter.isBlank_of_mem_write
  rw [← readValue_eq_ok_iff, bind_eq_ok_iff]
  constructor
  · rintro ⟨weight, hread, h⟩
    obtain rfl := Except.ok.inj h
    exact hread
  · exact fun hread => ⟨w.weight, hread, rfl⟩

theorem CpuMax.lineFormat : LineFormat CpuMax.read Spells write :=
  .of_line (fun _ => rfl) (fun _ _ => ofWords_eq_ok_iff) spells_write trimmed_write
    newline_notMem_write

/-- The files with a value on their first line, each by its grammar. -/
structure ValueLineLaw : Prop where
  amount : LineFormat MemoryAmount.read Counter.Spells Counter.write
  limit : LineFormat MemoryLimit.read MemoryLimit.Spells MemoryLimit.write
  weight : LineFormat CpuWeight.read (fun t w => Counter.Spells t w.weight) fun w =>
    w.weight.write
  bandwidth : LineFormat CpuMax.read CpuMax.Spells CpuMax.write
  /-- Of a bandwidth two words count. -/
  bandwidth_words : ∀ {contents contents' line line'}, FirstLine contents line →
    FirstLine contents' line' → line'.words.take 2 = line.words.take 2 →
      CpuMax.read contents' = CpuMax.read contents

/-- A file with a value on its first line is read exactly by the grammar of its format, and what is
written of a value is read back. -/
theorem valueLineLaw : ValueLineLaw where
  amount := MemoryAmount.lineFormat
  limit := MemoryLimit.lineFormat
  weight := CpuWeight.lineFormat
  bandwidth := CpuMax.lineFormat
  bandwidth_words {contents contents' line line'} hfirst hfirst' hwords := by
    have hread {contents line} (h : FirstLine contents line) :
        CpuMax.read contents = CpuMax.ofWords line.words := by
      rw [CpuMax.read, h.firstLine_eq]
      rfl
    rw [hread hfirst, hread hfirst', CpuMax.ofWords_congr hwords]

/-- A bandwidth with a sign, leading zeros, blanks that are no spaces and a word too many, in front
of bytes that are no text; and the largest quota, written and read back. -/
theorem valueLineLaw_padded :
    CpuMax.read (Utf8.encode "\r\u00a0max +0250000 soon\u3000".toList ++ newline :: [0xFF]) =
        .ok ⟨none, 250000⟩ ∧
      CpuMax.read (Utf8.encode ("\t".toList ++
          CpuMax.write ⟨some 18446744073709551615, 0⟩ ++ " \n\r\n".toList) ++ [0xFF]) =
        .ok ⟨some 18446744073709551615, 0⟩ := by
  have hfirst : FirstLine
      (Utf8.encode "\r\u00a0max +0250000 soon\u3000".toList ++ newline :: [0xFF])
      "\r\u00a0max +0250000 soon\u3000".toList := ⟨by decide, Or.inr ⟨[0xFF], rfl⟩⟩
  have htrims : Text.Trims "\r\u00a0max +0250000 soon\u3000".toList
      "max +0250000 soon".toList := by
    refine ⟨⟨?_, ?_⟩, "\r\u00a0".toList, "\u3000".toList, List.all_eq_true.1 rfl,
      List.all_eq_true.1 rfl, rfl⟩
    · rintro c ⟨⟩
      decide
    · rintro c ⟨⟩
      decide
  have hspells : CpuMax.Spells "max +0250000 soon".toList ⟨none, 250000⟩ :=
    ⟨.unlimited, "0250000".toList, Or.inr rfl, by decide, List.all_eq_true.1 rfl, by decide⟩
  have hshown : Shown (Utf8.encode ("\t".toList ++
      CpuMax.write ⟨some 18446744073709551615, 0⟩ ++ " \n\r\n".toList) ++ [0xFF])
      (CpuMax.write ⟨some 18446744073709551615, 0⟩) :=
    ⟨_, _, _, rfl, List.all_eq_true.1 rfl, by decide, List.all_eq_true.1 rfl, Or.inr (by decide)⟩
  exact ⟨(valueLineLaw.bandwidth.ok_iff hfirst htrims _).2 hspells,
    valueLineLaw.bandwidth.reads_back hshown⟩

end ResourceMetrics
