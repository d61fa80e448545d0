import Mathlib.Algebra.BigOperators.Group.List.Basic
import Mathlib.Algebra.Ring.Nat
import ResourceMetrics.Proofs.KeyedLines

/-! Files of keys and values in which a key may come again. Every line is read, and what is built is
the left fold of the handlers over the numbers of all lines, so reading two files that are put
together goes on from what the first one gave. A field that adds up what its key gives holds the sum
of all numbers under the key, cut off at the largest counter, in whatever order the lines stand; a
field that keeps what its key gives holds the last number. -/

namespace ResourceMetrics

namespace Counter

theorem toNat_addSaturating (a b : Counter) :
    (a.addSaturating b).toNat = min (a.toNat + b.toNat) (UInt64.size - 1) := by
  unfold addSaturating ofNatSaturating
  cases hsum : ofNat? (a.toNat + b.toNat) with
  | none =>
      have hlarge := ofNat?_eq_none_iff.1 hsum
      rw [Option.getD_none, min_eq_right (Nat.le_trans (Nat.sub_le _ _) hlarge)]
      rfl
  | some c =>
      have hc := c.toNat_lt_size
      rw [Option.getD_some, ofNat?_eq_some_iff.1 hsum, min_eq_left (Nat.le_sub_one_of_lt hc)]

/-- Once a sum has been cut off it stays so, whatever is added. -/
theorem toNat_foldl_addSaturating (ns : List Counter) : ∀ a : Counter,
    (ns.foldl addSaturating a).toNat =
      min (a.toNat + (ns.map UInt64.toNat).sum) (UInt64.size - 1) := by
  induction ns with
  | nil =>
      intro a
      exact (min_eq_left (Nat.le_sub_one_of_lt a.toNat_lt_size)).symm
  | cons n ns ih =>
      intro a
      rw [List.foldl_cons, ih, toNat_addSaturating, List.map_cons, List.sum_cons]
      omega

theorem foldl_last (ns : List Counter) : ∀ a : Counter,
    ns.foldl (fun _ n => n) a = ns.getLast?.getD a := by
  induction ns with
  | nil => exact fun _ => rfl
  | cons n ns ih =>
      intro a
      rw [List.foldl_cons, ih, List.getLast?_cons, Option.getD_some]

end Counter

namespace KeyTable

variable {α : Type} (table : KeyTable α)

/-- A line of text with a number, if it names a known key. -/
structure Readable (line : Bytes) : Prop where
  text : IsText line
  value : ∀ key value, table.Gives line key value → ∃ n, Numeral.read64 value = .ok n

/-- The numbers that lines give under one key, in order. -/
def numbersUnder (key : Text) (ls : List Bytes) : List Counter :=
  ((table.numbers ls).filter (·.1 = key)).map (·.2)

/-- A field of the result that changes with one key only, and with it as told. -/
structure Feeds (key : Text) (field : α → Counter) (take : Counter → Counter → Counter) :
    Prop where
  own : ∀ handle, table.handler? key = some handle → ∀ a n,
    field (handle a n) = take (field a) n
  others : ∀ key' handle, key' ≠ key → table.handler? key' = some handle → ∀ a n,
    field (handle a n) = field a

/-- What reading a file comes to where keys may repeat. -/
structure RepeatedKeysLaw : Prop where
  ok_iff : ∀ contents result, table.read contents = .ok result ↔
    (∀ line ∈ lines contents, table.Readable line) ∧
      result = table.putAll table.initial (lines contents)
  error_iff : ∀ contents e,
    table.read contents = .error e ↔ ItemFaults.First table.LineFault (lines contents) e
  concat : ∀ {x y a b}, Ended x → table.read x = .ok a → table.read y = .ok b →
    table.read (x ++ y) = .ok (table.putAll a (lines y))
  sum : ∀ {key field}, table.Feeds key field Counter.addSaturating →
    ∀ {contents contents' a}, table.read contents = .ok a →
      (lines contents).Perm (lines contents') → ∃ a', table.read contents' = .ok a' ∧
        (field a').toNat = min ((field table.initial).toNat +
          ((table.numbersUnder key (lines contents)).map UInt64.toNat).sum) (UInt64.size - 1)
  last : ∀ {key field}, table.Feeds key field (fun _ n => n) →
    ∀ {contents a}, table.read contents = .ok a →
      field a = (table.numbersUnder key (lines contents)).getLast?.getD (field table.initial)

variable {table} {contents : Bytes} {ls : List Bytes} {key : Text} {field : α → Counter}
  {take : Counter → Counter → Counter}

theorem not_finished_of_repeats (hrepeats : table.repeats = true) : ¬table.Finished ls :=
  fun hfinished => Bool.noConfusion (hrepeats.symm.trans hfinished.1)

theorem needed_self (hrepeats : table.repeats = true) (ls : List Bytes) : table.Needed ls ls where
  isPrefix := List.prefix_rfl
  finished_or_all := Or.inr rfl
  shortest _ _ hfinished := absurd hfinished (not_finished_of_repeats hrepeats)

theorem sound_iff_readable (hrepeats : table.repeats = true) :
    table.Sound ls ↔ ∀ line ∈ ls, table.Readable line := by
  constructor
  · intro h line hline
    exact ⟨h.text line hline, h.value line hline⟩
  · intro h
    refine ⟨fun line hline => (h line hline).text, fun line hline => (h line hline).value, ?_⟩
    exact fun hunique => Bool.noConfusion (hrepeats.symm.trans hunique)

theorem read_eq_ok_iff_readable (hrepeats : table.repeats = true) {result : α} :
    table.read contents = .ok result ↔ (∀ line ∈ lines contents, table.Readable line) ∧
      result = table.putAll table.initial (lines contents) := by
  rw [← sound_iff_readable hrepeats]
  exact read_eq_ok_iff (not_finished_of_repeats hrepeats) (needed_self hrepeats _)

/-- One number changes the field if it stands under the field's key. -/
theorem Feeds.put (h : table.Feeds key field take) (a : α) {entry : Text × Counter}
    (hknown : table.Known entry.1) :
    field (table.put a entry) = if entry.1 = key then take (field a) entry.2 else field a := by
  obtain ⟨handle, hhandle⟩ := known_iff.1 hknown
  rw [KeyTable.put, hhandle]
  dsimp only
  by_cases hkey : entry.1 = key
  · rw [if_pos hkey]
    exact h.own handle (hkey ▸ hhandle) a entry.2
  · rw [if_neg hkey]
    exact h.others entry.1 handle hkey hhandle a entry.2

theorem Feeds.putAll (h : table.Feeds key field take) (ls : List Bytes) (a : α) :
    field (table.putAll a ls) = (table.numbersUnder key ls).foldl take (field a) := by
  have hknown : ∀ entry ∈ table.numbers ls, table.Known entry.1 := by
    rintro ⟨key', n⟩ hentry
    obtain ⟨line, -, hnumber⟩ := List.mem_filterMap.1 hentry
    obtain ⟨value, hgives⟩ := names_of_number? hnumber
    exact hgives.1
  unfold KeyTable.putAll numbersUnder
  generalize table.numbers ls = entries at hknown
  induction entries generalizing a with
  | nil => rfl
  | cons entry entries ih =>
      obtain ⟨hfirst, hrest⟩ := List.forall_mem_cons.1 hknown
      rw [List.foldl_cons, ih _ hrest, h.put a hfirst, List.filter_cons]
      by_cases hkey : entry.1 = key
      · rw [if_pos hkey, if_pos (decide_eq_true hkey), List.map_cons, List.foldl_cons]
      · rw [if_neg hkey, if_neg (mt of_decide_eq_true hkey)]

theorem numbersUnder_perm {ls' : List Bytes} (h : ls.Perm ls') :
    (table.numbersUnder key ls).Perm (table.numbersUnder key ls') :=
  ((h.filterMap table.number?).filter _).map _

theorem sum_numbersUnder_perm {ls' : List Bytes} (h : ls.Perm ls') :
    ((table.numbersUnder key ls').map UInt64.toNat).sum =
      ((table.numbersUnder key ls).map UInt64.toNat).sum :=
  ((numbersUnder_perm h).map UInt64.toNat).sum_eq.symm

/-- Where keys may repeat, all lines are read and no number is lost. -/
theorem repeatedKeysLaw (hrepeats : table.repeats = true) : table.RepeatedKeysLaw where
  ok_iff _ _ := read_eq_ok_iff_readable hrepeats
  error_iff _ _ :=
    read_eq_error_iff (not_finished_of_repeats hrepeats) (needed_self hrepeats _)
  concat := by
    intro x y a b hended hx hy
    rw [read_eq_ok_iff_readable hrepeats] at hx hy ⊢
    obtain ⟨hx, rfl⟩ := hx
    rw [lines_append hended, putAll_append]
    exact ⟨List.forall_mem_append.2 ⟨hx, hy.1⟩, rfl⟩
  sum := by
    intro key field hfeeds contents contents' a hread hperm
    obtain ⟨hreadable, -⟩ := (read_eq_ok_iff_readable hrepeats).1 hread
    have hread' : table.read contents' = .ok (table.putAll table.initial (lines contents')) :=
      (read_eq_ok_iff_readable hrepeats).2
        ⟨fun line hline => hreadable line (hperm.mem_iff.2 hline), rfl⟩
    refine ⟨_, hread', ?_⟩
    rw [hfeeds.putAll, Counter.toNat_foldl_addSaturating, sum_numbersUnder_perm hperm]
  last := by
    intro key field hfeeds contents a hread
    obtain ⟨-, rfl⟩ := (read_eq_ok_iff_readable hrepeats).1 hread
    rw [hfeeds.putAll, Counter.foldl_last]

/-- Adds up the numbers under one key and keeps the last one under another. -/
def sumAndLast : KeyTable (Counter × Counter) where
  initial := (0, 0)
  fields :=
    [("total".toList, fun p n => (p.1.addSaturating n, p.2)),
     ("last".toList, fun p n => (p.1, n))]
  repeats := true

/-- Put behind a file that has filled the sum, another one changes the last number only. -/
theorem sumAndLast_read_append :
    sumAndLast.repeats = true ∧
      sumAndLast.read (Utf8.encode "total: 18446744073709551615\nlast 7\n".toList ++
        Utf8.encode "last 8\ntotal 2\nlast: 5".toList) = .ok (Counter.largest, 5) := by
  have hlaw : sumAndLast.RepeatedKeysLaw := repeatedKeysLaw rfl
  have hended : Ended (Utf8.encode "total: 18446744073709551615\nlast 7\n".toList) :=
    Or.inr (by decide)
  have hread := hlaw.concat hended (a := (Counter.largest, 7)) (b := (2, 5))
    (y := Utf8.encode "last 8\ntotal 2\nlast: 5".toList) (by decide) (by decide)
  exact ⟨rfl, hread.trans (by decide)⟩

end KeyTable

end ResourceMetrics
