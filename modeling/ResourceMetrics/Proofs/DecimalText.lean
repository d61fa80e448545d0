import ResourceMetrics.SnapshotJson
import ResourceMetrics.Proofs.ShortestRead

/-! The text of a decimal, read back as the number that it stands for. The digits around the point
are read as one whole number, and each digit behind the point lowers the exponent by one. In both
notations these are the digits of the decimal, but for zeros that do not change the number. -/

namespace ResourceMetrics

namespace NumberText

/-- The value of digits, of which there is at least one. -/
def digits? (t : Text) : Option Nat :=
  if !t.isEmpty && t.all Char.isDigit then some (Nat.ofDigitChars 10 t 0) else none

def integer? : Text → Option Int
  | '-' :: t => (digits? t).map fun n => -Int.ofNat n
  | t => (digits? t).map Int.ofNat

/-- The digits behind a point, if there is one, and what follows them. -/
def fraction : Text → Text × Text
  | '.' :: t => (t.takeWhile Char.isDigit, t.dropWhile Char.isDigit)
  | t => ([], t)

def exponent? : Text → Option Int
  | [] => some 0
  | 'e' :: '-' :: t => (digits? t).map fun n => -Int.ofNat n
  | 'e' :: '+' :: t => (digits? t).map Int.ofNat
  | _ => none

/-- A number without a sign: digits, a point with more digits, and an exponent. -/
def decimal? (t : Text) : Option Decimal := do
  let (behind, rest) := fraction (t.dropWhile Char.isDigit)
  let digits ← digits? (t.takeWhile Char.isDigit ++ behind)
  let exponent ← exponent? rest
  pure ⟨digits, exponent - behind.length⟩

/-- A number, with whether it is negative. -/
def number? : Text → Option (Bool × Decimal)
  | '-' :: t => (decimal? t).map (true, ·)
  | t => (decimal? t).map (false, ·)

/-- All characters of a text are digits. -/
def Digits (t : Text) : Prop := ∀ c ∈ t, c.isDigit = true

theorem Digits.append {t t' : Text} (h : Digits t) (h' : Digits t') : Digits (t ++ t') := by
  intro c hc
  rcases List.mem_append.1 hc with hc | hc
  · exact h c hc
  · exact h' c hc

theorem Digits.take {t : Text} (h : Digits t) (n : Nat) : Digits (t.take n) :=
  fun c hc => h c (List.mem_of_mem_take hc)

theorem Digits.drop {t : Text} (h : Digits t) (n : Nat) : Digits (t.drop n) :=
  fun c hc => h c (List.mem_of_mem_drop hc)

theorem digits_write (n : Nat) : Digits (Numeral.write n) :=
  fun _ hc => Nat.isDigit_of_mem_toDigits (by decide) (by decide) hc

theorem digits_zeros (n : Nat) : Digits (SnapshotJson.zeros n) := by
  intro c hc
  rw [List.eq_of_mem_replicate hc]
  rfl

theorem digits?_of_digits {t : Text} (hne : t ≠ []) (h : Digits t) :
    digits? t = some (Nat.ofDigitChars 10 t 0) := by
  have hread : (!t.isEmpty && t.all Char.isDigit) = true := by
    rw [List.isEmpty_eq_false_iff.2 hne, List.all_eq_true.2 h]
    rfl
  rw [digits?, if_pos hread]

theorem digits?_write (n : Nat) : digits? (Numeral.write n) = some n := by
  have hne : Numeral.write n ≠ [] := Nat.toDigits_ne_nil
  rw [digits?_of_digits hne (digits_write n), Numeral.write, Nat.ofDigitChars_ten_toDigits]

theorem integer?_write (n : Nat) : integer? (Numeral.write n) = some (n : Int) := by
  have hread : (digits? (Numeral.write n)).map Int.ofNat = some (n : Int) := by
    rw [digits?_write, Option.map_some, Int.ofNat_eq_natCast]
  unfold integer?
  split
  · rename_i t ht
    have hdash := digits_write n '-' (ht ▸ List.mem_cons_self)
    cases hdash
  · exact hread

theorem integer?_integer (n : Int) : integer? (SnapshotJson.integer n) = some n := by
  unfold SnapshotJson.integer
  split
  · rename_i hn
    have hread : (digits? (Numeral.write n.natAbs)).map (fun k => -Int.ofNat k) = some n := by
      rw [digits?_write, Option.map_some, Option.some.injEq, Int.ofNat_eq_natCast]
      omega
    exact hread
  · rename_i hn
    rw [List.nil_append, integer?_write, Option.some.injEq]
    omega

/-- A text goes on with no digit. -/
def Ends (t : Text) : Prop := ∀ c ∈ t.head?, c.isDigit = false

theorem Digits.takeWhile_append {t rest : Text} (h : Digits t) (hrest : Ends rest) :
    (t ++ rest).takeWhile Char.isDigit = t := by
  rw [List.takeWhile_append_of_pos h]
  cases rest with
  | nil => exact List.append_nil t
  | cons c rest => rw [List.takeWhile_cons_of_neg (by simp [hrest c rfl]), List.append_nil]

theorem Digits.dropWhile_append {t rest : Text} (h : Digits t) (hrest : Ends rest) :
    (t ++ rest).dropWhile Char.isDigit = rest := by
  rw [List.dropWhile_append_of_pos h]
  cases rest with
  | nil => rfl
  | cons c rest => exact List.dropWhile_cons_of_neg (by simp [hrest c rfl])

/-- With a point the digits on both sides of it are read as one number. -/
theorem decimal?_point {whole behind rest : Text} {e : Int} (hwhole : Digits whole)
    (hbehind : Digits behind) (hne : whole ++ behind ≠ []) (hends : Ends rest)
    (hrest : exponent? rest = some e) : decimal? (whole ++ '.' :: (behind ++ rest)) =
      some ⟨Nat.ofDigitChars 10 (whole ++ behind) 0, e - behind.length⟩ := by
  have hpoint : Ends ('.' :: (behind ++ rest)) := by
    intro c hc
    rw [← Option.some.inj hc]
    rfl
  rw [decimal?, hwhole.takeWhile_append hpoint, hwhole.dropWhile_append hpoint]
  simp only [fraction, hbehind.takeWhile_append hends, hbehind.dropWhile_append hends,
    digits?_of_digits hne (hwhole.append hbehind), hrest]
  rfl

theorem decimal?_no_point {whole rest : Text} {e : Int} (hwhole : Digits whole)
    (hne : whole ≠ []) (hends : Ends rest) (hpoint : rest.head? ≠ some '.')
    (hrest : exponent? rest = some e) :
    decimal? (whole ++ rest) = some ⟨Nat.ofDigitChars 10 whole 0, e⟩ := by
  have hfraction : fraction rest = ([], rest) := by
    unfold fraction
    split
    · exact absurd rfl hpoint
    · rfl
  rw [decimal?, hwhole.takeWhile_append hends, hwhole.dropWhile_append hends, hfraction]
  simp only [List.append_nil, digits?_of_digits hne hwhole, hrest]
  simp

section Notation

open SnapshotJson

theorem exponent?_write (power : Int) :
    exponent? ('e' :: (if power < 0 then '-' else '+') :: Numeral.write power.natAbs) =
      some power := by
  split
  · rename_i hneg
    rw [exponent?, digits?_write, Option.map_some, Option.some.injEq, Int.ofNat_eq_natCast]
    omega
  · rename_i hneg
    rw [exponent?, digits?_write, Option.map_some, Option.some.injEq, Int.ofNat_eq_natCast]
    omega

theorem ofDigitChars_zeros_append (n : Nat) (digits : Text) :
    Nat.ofDigitChars 10 (zeros n ++ digits) 0 = Nat.ofDigitChars 10 digits 0 := by
  rw [Nat.ofDigitChars_append, zeros, Nat.ofDigitChars_replicate_zero, Nat.mul_zero]

theorem ofDigitChars_append_zeros (n : Nat) (digits : Text) :
    Nat.ofDigitChars 10 (digits ++ zeros n) 0 = 10 ^ n * Nat.ofDigitChars 10 digits 0 := by
  rw [Nat.ofDigitChars_append, zeros, Nat.ofDigitChars_replicate_zero]

/-- A text is read as a decimal of the given value. -/
def Denotes (t : Text) (d : Decimal) : Prop := ∃ d', decimal? t = some d' ∧ d'.value = d.value

section

variable {digits : Text} (h : Digits digits) (hne : digits ≠ [])

include h hne

/-- The plain notation of a decimal whose first digit stands for a power of ten. -/
theorem denotes_plain (power : Int) : Denotes (plain digits power)
    ⟨Nat.ofDigitChars 10 digits 0, power - digits.length + 1⟩ := by
  have hnil : exponent? [] = some 0 := rfl
  have hends : Ends [] := nofun
  cases power with
  | negSucc n =>
      have hread := decimal?_point (digits_zeros 1) ((digits_zeros n).append h) (by simp [hne])
        hends hnil
      rw [List.append_nil, ofDigitChars_zeros_append, ofDigitChars_zeros_append] at hread
      refine ⟨_, hread, ?_⟩
      have hexponent : (0 : Int) - (zeros n ++ digits).length =
          .negSucc n - digits.length + 1 := by
        simp only [zeros, List.length_append, List.length_replicate]
        omega
      rw [hexponent]
  | ofNat n =>
      by_cases hlen : digits.length ≤ n + 1
      · -- All digits stand before the point, and zeros fill the places up to it.
        have hread := decimal?_point (h.append (digits_zeros (n + 1 - digits.length)))
          (digits_zeros 1) (by simp [hne]) hends hnil
        have htext : plain digits (.ofNat n) =
            digits ++ zeros (n + 1 - digits.length) ++ '.' :: (zeros 1 ++ []) := by
          simp [plain, List.take_of_length_le hlen, List.drop_of_length_le hlen]
        rw [htext]
        refine ⟨_, hread, ?_⟩
        have hexponent : (0 : Int) - (zeros 1).length + (1 : Nat) + (n + 1 - digits.length : Nat) =
            .ofNat n - digits.length + 1 := by
          simp only [zeros, List.length_replicate, Int.ofNat_eq_natCast]
          omega
        rw [ofDigitChars_append_zeros, ofDigitChars_append_zeros, Decimal.value_shift,
          Decimal.value_shift, hexponent]
      · have hdrop : digits.drop (n + 1) ≠ [] := by simpa using hlen
        have hread := decimal?_point (h.take (n + 1)) (h.drop (n + 1)) (by simp [hne]) hends hnil
        have htext : plain digits (.ofNat n) =
            digits.take (n + 1) ++ '.' :: (digits.drop (n + 1) ++ []) := by
          have htake : (digits.take (n + 1)).length = n + 1 := by
            rw [List.length_take]
            omega
          simp [plain, htake, zeros, hdrop]
        rw [htext]
        refine ⟨_, hread, ?_⟩
        have hexponent : (0 : Int) - (digits.drop (n + 1)).length =
            .ofNat n - digits.length + 1 := by
          simp only [List.length_drop, Int.ofNat_eq_natCast]
          omega
        rw [List.take_append_drop, hexponent]

theorem denotes_scientific (power : Int) : Denotes (scientific digits power)
    ⟨Nat.ofDigitChars 10 digits 0, power - digits.length + 1⟩ := by
  have hexponent := exponent?_write power
  have hends : Ends ('e' :: (if power < 0 then '-' else '+') :: Numeral.write power.natAbs) := by
    intro c hc
    rw [← Option.some.inj hc]
    rfl
  have hpos := List.length_pos_iff.2 hne
  by_cases hdrop : digits.drop 1 = []
  · have hlen : digits.length = 1 := by
      have hle := List.drop_eq_nil_iff.1 hdrop
      omega
    have htake : digits.take 1 = digits := List.take_of_length_le (by omega)
    have hread := decimal?_no_point h hne hends (by simp) hexponent
    have htext : scientific digits power =
        digits ++ 'e' :: (if power < 0 then '-' else '+') :: Numeral.write power.natAbs := by
      simp [scientific, hdrop, htake]
    rw [htext]
    refine ⟨_, hread, ?_⟩
    have hsame : power = power - digits.length + 1 := by omega
    rw [← hsame]
  · have hread := decimal?_point (h.take 1) (h.drop 1) (by simp [hne]) hends hexponent
    have htext : scientific digits power = digits.take 1 ++ '.' :: (digits.drop 1 ++
        'e' :: (if power < 0 then '-' else '+') :: Numeral.write power.natAbs) := by
      have hmore : ¬(digits.drop 1).isEmpty = true := by rwa [List.isEmpty_iff]
      rw [scientific, if_neg hmore, List.append_assoc, List.cons_append]
    rw [htext]
    refine ⟨_, hread, ?_⟩
    have hsame : power - (digits.drop 1).length = power - digits.length + 1 := by
      rw [List.length_drop]
      omega
    rw [List.take_append_drop, hsame]

end

/-- A decimal is written as a number of its value. -/
theorem denotes_decimal (d : Decimal) : Denotes (decimal d) d := by
  have hne : Numeral.write d.digits ≠ [] := Nat.toDigits_ne_nil
  have hdigits : Nat.ofDigitChars 10 (Numeral.write d.digits) 0 = d.digits :=
    Nat.ofDigitChars_ten_toDigits
  have hexponent : d.exponent + ((Numeral.write d.digits).length : Int) - 1 -
      (Numeral.write d.digits).length + 1 = d.exponent := by omega
  have hplain := denotes_plain (digits_write d.digits) hne
    (d.exponent + ((Numeral.write d.digits).length : Int) - 1)
  have hscientific := denotes_scientific (digits_write d.digits) hne
    (d.exponent + ((Numeral.write d.digits).length : Int) - 1)
  rw [hdigits, hexponent] at hplain hscientific
  unfold decimal
  dsimp only
  split
  · exact hplain
  · exact hscientific

/-- The magnitude of a finite load is written as a shortest decimal that reads back as it. -/
theorem exists_shortest {x : Binary64} (h : x.isFinite = true) :
    ∃ s, x.parts.Shortest s ∧ Denotes (magnitude x.parts) s := by
  have hcanonical := x.canonical_parts
  unfold magnitude
  split
  · rename_i hzero
    exact ⟨⟨0, -1⟩, ShortestDecimal.shortest_zero hcanonical hzero _, ⟨0, -1⟩, by decide, rfl⟩
  · rename_i hmantissa
    exact ⟨_, ShortestDecimal.shortest_ofParts hcanonical (Nat.pos_of_ne_zero hmantissa)
      (Binary64.exponent_parts_le h), denotes_decimal _⟩

theorem number?_of_decimal? {t : Text} {d : Decimal} (h : decimal? t = some d) :
    number? t = some (false, d) := by
  unfold number?
  split
  · cases h
  · rw [h]
    rfl

/-- A finite load is written as a number with its sign, the rest of which has the value of a
shortest decimal of its magnitude. -/
theorem number?_load {x : Binary64} (h : x.isFinite = true) :
    ∃ d s, number? (load x) = some (x.isNegative, d) ∧ d.value = s.value ∧ x.parts.Shortest s := by
  obtain ⟨s, hshortest, d, hread, hvalue⟩ := exists_shortest h
  refine ⟨d, s, ?_, hvalue, hshortest⟩
  unfold load
  rw [if_pos h]
  cases x.isNegative with
  | true =>
      have hdash : number? ('-' :: magnitude x.parts) = some (true, d) := by
        rw [number?, hread]
        rfl
      exact hdash
  | false => exact number?_of_decimal? hread

end Notation

end NumberText

end ResourceMetrics
