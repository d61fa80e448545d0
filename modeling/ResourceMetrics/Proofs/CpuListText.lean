import Mathlib.Data.List.Sort
import Mathlib.Data.Set.Card
import ResourceMetrics.CpuLimit
import ResourceMetrics.Proofs.CheckedArithmetic
import ResourceMetrics.Proofs.NumeralText

/-! What a CPU list says. A part stands for a set of indices, and a line of parts for the union of
them, in whatever order and overlap they are written. The list that is read from a line is the one
strictly ascending list of the members, so it depends on the set alone and its length counts the
set. -/

namespace ResourceMetrics

namespace Text

variable {sep : Char} {t front rest : Text}

theorem cut?_eq_none_iff : t.cut? sep = none ↔ sep ∉ t := by
  induction t with
  | nil => exact iff_of_true rfl List.not_mem_nil
  | cons c t ih =>
      rw [cut?]
      split
      · rename_i hc
        exact iff_of_false nofun fun h => h (hc ▸ List.mem_cons_self)
      · rename_i hc
        rw [Option.map_eq_none_iff, ih, List.mem_cons, not_or]
        exact ⟨fun h => ⟨Ne.symm hc, h⟩, fun h => h.2⟩

theorem cut?_append (h : sep ∉ front) (rest : Text) :
    (front ++ sep :: rest).cut? sep = some (front, rest) := by
  induction front with
  | nil => exact if_pos rfl
  | cons c front ih =>
      rw [List.mem_cons, not_or] at h
      rw [List.cons_append, cut?, if_neg (Ne.symm h.1), ih h.2, Option.map_some]

theorem cut?_eq_some_iff :
    t.cut? sep = some (front, rest) ↔ t = front ++ sep :: rest ∧ sep ∉ front := by
  constructor
  · intro h
    induction t generalizing front with
    | nil => cases h
    | cons c t ih =>
        rw [cut?] at h
        split at h
        · rename_i hc
          cases h
          exact ⟨by rw [hc, List.nil_append], List.not_mem_nil⟩
        · rename_i hc
          obtain ⟨⟨front', rest'⟩, hcut, heq⟩ := Option.map_eq_some_iff.1 h
          cases heq
          obtain ⟨rfl, hfront⟩ := ih hcut
          exact ⟨rfl, List.not_mem_cons_of_ne_of_not_mem (Ne.symm hc) hfront⟩
  · rintro ⟨rfl, h⟩
    exact cut?_append h rest

end Text

namespace CpuList

/-- A part covers the indices of its range that are a whole number of steps from the start. -/
def Part.Covers (p : Part) (cpu : CpuIndex) : Prop :=
  p.first ≤ cpu ∧ cpu ≤ p.last ∧ p.stride.toNat ∣ cpu.toNat - p.first.toNat

/-- A text is a part: an index, a range, or a range with a stride. -/
inductive PartText : Text → Part → Prop
  | index {t : Text} {cpu : CpuIndex} : Numeral.Spells t cpu.toNat → PartText t ⟨cpu, cpu, 1⟩
  | range {a b : Text} {first last : CpuIndex} : Numeral.Spells a first.toNat →
      Numeral.Spells b last.toNat → first ≤ last → PartText (a ++ '-' :: b) ⟨first, last, 1⟩
  | strided {a b s : Text} {first last stride : CpuIndex} : Numeral.Spells a first.toNat →
      Numeral.Spells b last.toNat → Numeral.Spells s stride.toNat → stride ≠ 0 → first ≤ last →
        PartText (a ++ '-' :: (b ++ ':' :: s)) ⟨first, last, stride⟩

/-- The indices of a part are counted from its start, and none is behind its end. -/
theorem Part.mem_cpus {p : Part} (hle : p.first ≤ p.last) (hstride : p.stride ≠ 0)
    {cpu : CpuIndex} : cpu ∈ p.cpus ↔ p.Covers cpu := by
  have hpos : 0 < p.stride.toNat := Nat.pos_of_ne_zero fun h =>
    hstride (UInt32.toNat_inj.1 (h.trans UInt32.toNat_zero.symm))
  have hrange := UInt32.le_iff_toNat_le.1 hle
  have hlast := p.last.toNat_lt_size
  simp only [cpus, Covers, List.mem_map, List.mem_range, Nat.lt_succ_iff,
    Nat.le_div_iff_mul_le hpos, UInt32.le_iff_toNat_le]
  constructor
  · rintro ⟨i, hi, rfl⟩
    rw [UInt32.toNat_ofNat_of_lt' (by omega)]
    exact ⟨by omega, by omega, Dvd.intro_left i (by omega)⟩
  · rintro ⟨hfirst, hcpu, i, hi⟩
    refine ⟨i, by rw [Nat.mul_comm]; omega, ?_⟩
    rw [← UInt32.toNat_inj, Nat.mul_comm, ← hi, UInt32.toNat_ofNat_of_lt' (by omega)]
    omega

theorem readIndex_eq_ok_iff {problem : NumeralError → Problem} {t : Text} {cpu : CpuIndex} :
    readIndex problem t = .ok cpu ↔ Numeral.Spells t cpu.toNat := by
  rw [← Numeral.read32_eq_ok_iff, readIndex]
  cases Numeral.read32 t with
  | ok n => rw [Except.ok.injEq, Except.ok.injEq]
  | error cause => exact iff_of_false nofun nofun

theorem readStride_some_eq_ok_iff {t : Text} {stride : CpuIndex} :
    readStride (some t) = .ok stride ↔ Numeral.Spells t stride.toNat ∧ stride ≠ 0 := by
  rw [readStride, bind_eq_ok_iff]
  simp only [readIndex_eq_ok_iff]
  constructor
  · rintro ⟨n, hn, h⟩
    split at h
    · cases h
    · rename_i hzero
      obtain rfl := Except.ok.inj h
      exact ⟨hn, hzero⟩
  · rintro ⟨hn, hzero⟩
    exact ⟨stride, hn, if_neg hzero⟩

/-- A range is read by its ends and its stride. -/
theorem readPart_range_iff {a rest : Text} (ha : '-' ∉ a) {p : Part} :
    readPart (a ++ '-' :: rest) = .ok p ↔ Numeral.Spells a p.first.toNat ∧
      Numeral.Spells (cutStride rest).1 p.last.toNat ∧
      readStride (cutStride rest).2 = .ok p.stride ∧ p.first ≤ p.last := by
  rw [readPart, Text.cut?_eq_some_iff.2 ⟨rfl, ha⟩]
  simp only [bind_eq_ok_iff, readIndex_eq_ok_iff]
  constructor
  · rintro ⟨first, hfirst, last, hlast, stride, hstride, h⟩
    split at h
    · cases h
    · rename_i hle
      obtain rfl := Except.ok.inj h
      exact ⟨hfirst, hlast, hstride, UInt32.not_lt.1 hle⟩
  · rintro ⟨hfirst, hlast, hstride, hle⟩
    exact ⟨p.first, hfirst, p.last, hlast, p.stride, hstride, if_neg (UInt32.not_lt.2 hle)⟩

theorem readPart_eq_ok_iff {t : Text} {p : Part} : readPart t = .ok p ↔ PartText t p := by
  constructor
  · intro h
    cases hcut : t.cut? '-' with
    | none =>
        rw [readPart, hcut] at h
        obtain ⟨cpu, hcpu, h⟩ := bind_eq_ok_iff.1 h
        obtain rfl := Except.ok.inj h
        exact .index (readIndex_eq_ok_iff.1 hcpu)
    | some cut =>
        obtain ⟨a, rest⟩ := cut
        obtain ⟨rfl, ha⟩ := Text.cut?_eq_some_iff.1 hcut
        obtain ⟨first, last, stride⟩ := p
        obtain ⟨hfirst, hlast, hstride, hle⟩ := (readPart_range_iff ha).1 h
        unfold cutStride at hlast hstride
        cases hcolon : rest.cut? ':' with
        | none =>
            rw [hcolon] at hlast hstride
            obtain rfl := Except.ok.inj hstride
            exact .range hfirst hlast hle
        | some cut =>
            obtain ⟨b, s⟩ := cut
            obtain ⟨rfl, -⟩ := Text.cut?_eq_some_iff.1 hcolon
            rw [hcolon] at hlast hstride
            obtain ⟨hs, hzero⟩ := readStride_some_eq_ok_iff.1 hstride
            exact .strided hfirst hlast hs hzero hle
  · intro h
    cases h with
    | index hcpu =>
        rw [readPart, Text.cut?_eq_none_iff.2 (hcpu.notMem rfl (by decide))]
        exact bind_eq_ok_iff.2 ⟨_, readIndex_eq_ok_iff.2 hcpu, rfl⟩
    | range hfirst hlast hle =>
        rw [readPart_range_iff (hfirst.notMem rfl (by decide)), cutStride,
          Text.cut?_eq_none_iff.2 (hlast.notMem rfl (by decide))]
        exact ⟨hfirst, hlast, rfl, hle⟩
    | strided hfirst hlast hs hzero hle =>
        rw [readPart_range_iff (hfirst.notMem rfl (by decide)), cutStride,
          Text.cut?_eq_some_iff.2 ⟨rfl, hlast.notMem rfl (by decide)⟩]
        exact ⟨hfirst, hlast, readStride_some_eq_ok_iff.2 ⟨hs, hzero⟩, hle⟩

/-- A list of the members of a set, each once and in ascending order. -/
structure Lists (cpus : List CpuIndex) (set : Set CpuIndex) : Prop where
  ascending : cpus.Pairwise (· < ·)
  mem_iff : ∀ cpu, cpu ∈ cpus ↔ cpu ∈ set

namespace Lists

variable {cpus cpus' : List CpuIndex} {set : Set CpuIndex}

theorem nodup (h : Lists cpus set) : cpus.Nodup := h.ascending.imp UInt32.ne_of_lt

/-- There is one such list for a set. -/
theorem unique (h : Lists cpus set) (h' : Lists cpus' set) : cpus = cpus' := by
  have hperm : cpus.Perm cpus' := (List.perm_ext_iff_of_nodup h.nodup h'.nodup).2 fun cpu =>
    (h.mem_iff cpu).trans (h'.mem_iff cpu).symm
  exact hperm.eq_of_pairwise (fun a b _ _ hab hba => absurd hba (UInt32.lt_asymm hab)) h.ascending
    h'.ascending

theorem length_eq (h : Lists cpus set) : cpus.length = set.ncard := by
  have hset : (cpus.toFinset : Set CpuIndex) = set := by
    ext cpu
    rw [Finset.mem_coe, List.mem_toFinset, h.mem_iff]
  rw [← hset, Set.ncard_coe_finset, List.toFinset_card_of_nodup h.nodup]

theorem eq_nil_iff (h : Lists cpus set) : cpus = [] ↔ set = ∅ := by
  rw [List.eq_nil_iff_forall_not_mem, Set.eq_empty_iff_forall_notMem]
  simp only [h.mem_iff]

end Lists

theorem mem_dropRepeats {cpus : List CpuIndex} {cpu : CpuIndex} :
    cpu ∈ dropRepeats cpus ↔ cpu ∈ cpus := by
  induction cpus with
  | nil => exact Iff.rfl
  | cons first rest ih =>
      rw [dropRepeats, List.foldr_cons, ← dropRepeats]
      split
      · rename_i hhead
        rw [ih, List.mem_cons, iff_or_self]
        rintro rfl
        exact ih.1 (List.mem_of_mem_head? hhead)
      · rw [List.mem_cons, ih, List.mem_cons]

/-- What is kept in front of others is no greater than they are and, as it is not the first of them,
less. -/
theorem pairwise_dropRepeats {cpus : List CpuIndex} (h : cpus.Pairwise (· ≤ ·)) :
    (dropRepeats cpus).Pairwise (· < ·) := by
  induction h with
  | nil => exact .nil
  | @cons first rest hfirst _ ih =>
      rw [dropRepeats, List.foldr_cons, ← dropRepeats]
      split
      · exact ih
      · rename_i hhead
        refine List.pairwise_cons.2 ⟨fun cpu hcpu => ?_, ih⟩
        cases hrest : dropRepeats rest with
        | nil =>
            rw [hrest] at hcpu
            cases hcpu
        | cons next more =>
            rw [hrest] at hcpu hhead ih
            have hnext : first ≤ next :=
              hfirst next (mem_dropRepeats.1 (hrest ▸ List.mem_cons_self))
            have hlt : first < next := UInt32.lt_of_le_of_ne hnext fun heq => hhead (heq ▸ rfl)
            rcases List.mem_cons.1 hcpu with rfl | hmore
            · exact hlt
            · exact UInt32.lt_trans hlt ((List.pairwise_cons.1 ih).1 cpu hmore)

theorem lists_ofIndices (cpus : List CpuIndex) : Lists (ofIndices cpus) {cpu | cpu ∈ cpus} where
  ascending := by
    have htrans : IsTrans CpuIndex (· ≤ ·) := ⟨fun _ _ _ => UInt32.le_trans⟩
    have htotal : Std.Total (α := CpuIndex) (· ≤ ·) := ⟨UInt32.le_total⟩
    have hsorted : (cpus.mergeSort (· ≤ ·)).Pairwise (· ≤ ·) := List.pairwise_mergeSort' _ cpus
    exact pairwise_dropRepeats hsorted
  mem_iff cpu := by rw [ofIndices, mem_dropRepeats, List.mem_mergeSort, Set.mem_ofPred_eq]

/-- A line is a CPU list of a set: what stands between its commas is empty or a part, and the set is
what the parts cover. -/
structure Spells (t : Text) (set : Set CpuIndex) : Prop where
  parts : ∀ piece ∈ t.splitOn ',', piece ≠ [] → ∃ p, PartText piece p
  covers : ∀ cpu, cpu ∈ set ↔ ∃ piece ∈ t.splitOn ',', ∃ p, PartText piece p ∧ p.Covers cpu

theorem Spells.unique {t : Text} {set set' : Set CpuIndex} (h : Spells t set)
    (h' : Spells t set') : set = set' :=
  Set.ext fun cpu => (h.covers cpu).trans (h'.covers cpu).symm

section Parts

variable {texts : List Text} {ps : List Part}

theorem mapM_readPart_ok (h : texts.mapM readPart = .ok ps) :
    (∀ t ∈ texts, ∃ p, PartText t p) ∧ ∀ p, p ∈ ps ↔ ∃ t ∈ texts, PartText t p := by
  induction texts generalizing ps with
  | nil =>
      cases h
      exact ⟨nofun, fun p => iff_of_false nofun fun ⟨_, ht, _⟩ => nomatch ht⟩
  | cons t texts ih =>
      rw [List.mapM_cons] at h
      obtain ⟨p, hp, h⟩ := bind_eq_ok_iff.1 h
      obtain ⟨ps, hps, h⟩ := bind_eq_ok_iff.1 h
      obtain rfl := Except.ok.inj h
      obtain ⟨hparts, hmem⟩ := ih hps
      have hpart : ∀ p', PartText t p' ↔ p' = p := fun p' => by
        rw [← readPart_eq_ok_iff, hp, Except.ok.injEq, eq_comm]
      refine ⟨List.forall_mem_cons.2 ⟨⟨p, (hpart p).2 rfl⟩, hparts⟩, fun p' => ?_⟩
      rw [List.mem_cons, hmem, List.exists_mem_cons_iff, hpart]

theorem exists_mapM_readPart (h : ∀ t ∈ texts, ∃ p, PartText t p) :
    ∃ ps, texts.mapM readPart = .ok ps := by
  induction texts with
  | nil => exact ⟨[], rfl⟩
  | cons t texts ih =>
      obtain ⟨⟨p, hp⟩, hrest⟩ := List.forall_mem_cons.1 h
      obtain ⟨ps, hps⟩ := ih hrest
      refine ⟨p :: ps, ?_⟩
      rw [List.mapM_cons, readPart_eq_ok_iff.2 hp, hps]
      rfl

end Parts

theorem mem_parts {t piece : Text} : piece ∈ parts t ↔ piece ∈ t.splitOn ',' ∧ piece ≠ [] := by
  rw [parts, List.mem_filter, Bool.not_eq_true', List.isEmpty_eq_false_iff]

theorem PartText.ne_nil {t : Text} {p : Part} (h : PartText t p) : t ≠ [] := by
  cases h with
  | index hcpu =>
      obtain ⟨digits, rfl | rfl, hne, -⟩ := hcpu
      · exact hne
      · exact List.cons_ne_nil '+' digits
  | range => simp
  | strided => simp

theorem PartText.mem_cpus {t : Text} {p : Part} (h : PartText t p) {cpu : CpuIndex} :
    cpu ∈ p.cpus ↔ p.Covers cpu := by
  obtain ⟨hle, hstride⟩ := readPart_ok (readPart_eq_ok_iff.2 h)
  exact Part.mem_cpus hle hstride

theorem spells_of_mapM {t : Text} {ps : List Part} (h : (parts t).mapM readPart = .ok ps) :
    Spells t {cpu | cpu ∈ ps.flatMap Part.cpus} := by
  obtain ⟨hparts, hmem⟩ := mapM_readPart_ok h
  refine ⟨fun piece hpiece hne => hparts piece (mem_parts.2 ⟨hpiece, hne⟩), fun cpu => ?_⟩
  rw [Set.mem_ofPred_eq, List.mem_flatMap]
  constructor
  · rintro ⟨p, hp, hcpu⟩
    obtain ⟨piece, hpiece, htext⟩ := (hmem p).1 hp
    exact ⟨piece, (mem_parts.1 hpiece).1, p, htext, htext.mem_cpus.1 hcpu⟩
  · rintro ⟨piece, hpiece, p, htext, hcpu⟩
    have hp := (hmem p).2 ⟨piece, mem_parts.2 ⟨hpiece, htext.ne_nil⟩, htext⟩
    exact ⟨p, hp, htext.mem_cpus.2 hcpu⟩

/-- Every CPU list is read. -/
theorem Spells.exists_read {t : Text} {set : Set CpuIndex} (h : Spells t set) :
    ∃ cpus, read t = .ok cpus ∧ Lists cpus set := by
  obtain ⟨ps, hps⟩ := exists_mapM_readPart fun piece hpiece =>
    h.parts piece (mem_parts.1 hpiece).1 (mem_parts.1 hpiece).2
  obtain rfl := h.unique (spells_of_mapM hps)
  exact ⟨_, bind_eq_ok_iff.2 ⟨ps, hps, rfl⟩, lists_ofIndices _⟩

/-- Nothing else is read, and what is read are the members of the set. -/
theorem read_eq_ok_iff {t : Text} {cpus : List CpuIndex} :
    read t = .ok cpus ↔ ∃ set, Spells t set ∧ Lists cpus set := by
  constructor
  · intro h
    obtain ⟨ps, hps, h⟩ := bind_eq_ok_iff.1 h
    obtain rfl := Except.ok.inj h
    exact ⟨_, spells_of_mapM hps, lists_ofIndices _⟩
  · rintro ⟨set, hspells, hlists⟩
    obtain ⟨cpus', hread, hlists'⟩ := hspells.exists_read
    rw [hread, hlists.unique hlists']

end CpuList

namespace CpuSet

/-- The first line of a file spells a set of CPUs, with blanks around it or not. -/
def FirstLine (contents : Bytes) (set : Set CpuIndex) : Prop :=
  ∃ line, firstLine contents = .ok line ∧ CpuList.Spells line.trim set

/-- A file is read as its first line is. -/
theorem read_of_firstLine {contents : Bytes} {line : Text} {cpus : List CpuIndex}
    (h : firstLine contents = .ok line) :
    read contents = .ok cpus ↔ CpuList.read line.trim = .ok cpus := by
  rw [read, bind_eq_ok_iff]
  constructor
  · rintro ⟨line', hline', hread⟩
    obtain rfl := Except.ok.inj (h.symm.trans hline')
    cases hlist : CpuList.read line.trim with
    | ok listed =>
        rw [hlist] at hread
        exact congrArg _ (Except.ok.inj hread)
    | error cause =>
        rw [hlist] at hread
        cases hread
  · intro hlist
    refine ⟨line, h, ?_⟩
    rw [hlist]
    rfl

theorem FirstLine.exists_read {contents : Bytes} {set : Set CpuIndex}
    (h : FirstLine contents set) : ∃ cpus, read contents = .ok cpus ∧ CpuList.Lists cpus set := by
  obtain ⟨line, hline, hspells⟩ := h
  obtain ⟨cpus, hread, hlists⟩ := hspells.exists_read
  exact ⟨cpus, (read_of_firstLine hline).2 hread, hlists⟩

theorem read_eq_ok_iff {contents : Bytes} {cpus : List CpuIndex} :
    read contents = .ok cpus ↔ ∃ set, FirstLine contents set ∧ CpuList.Lists cpus set := by
  constructor
  · intro h
    obtain ⟨line, hline, -⟩ := bind_eq_ok_iff.1 h
    obtain ⟨set, hspells, hlists⟩ := CpuList.read_eq_ok_iff.1 ((read_of_firstLine hline).1 h)
    exact ⟨set, ⟨line, hline, hspells⟩, hlists⟩
  · rintro ⟨set, hset, hlists⟩
    obtain ⟨cpus', hread, hlists'⟩ := hset.exists_read
    rw [hread, hlists.unique hlists']

theorem FirstLine.unique {contents : Bytes} {set set' : Set CpuIndex} (h : FirstLine contents set)
    (h' : FirstLine contents set') : set = set' := by
  obtain ⟨line, hline, hspells⟩ := h
  obtain ⟨line', hline', hspells'⟩ := h'
  obtain rfl := Except.ok.inj (hline.symm.trans hline')
  exact hspells.unique hspells'

end CpuSet

end ResourceMetrics
