import ResourceMetrics.Numeral

/-! The grammar of numerals: digits, of which there is at least one, and a plus sign before them or
none. Each numeral stands for one number, and it is read exactly if that is below the limit, so
also digits that come to too much on the way make no numeral of a number that fits. -/

namespace ResourceMetrics

namespace Numeral

/-- A text is a numeral of a number. -/
def Spells (t : Text) (n : Nat) : Prop :=
  ∃ digits : Text, (t = digits ∨ t = '+' :: digits) ∧ digits ≠ [] ∧
    (∀ c ∈ digits, c.isDigit = true) ∧ Nat.ofDigitChars 10 digits 0 = n

theorem digit?_of_isDigit {c : Char} (h : c.isDigit = true) :
    digit? c = some (c.toNat - '0'.toNat) := by
  rw [Char.isDigit, Bool.and_eq_true, decide_eq_true_eq, decide_eq_true_eq] at h
  exact if_pos h

theorem digit?_of_not_isDigit {c : Char} (h : c.isDigit = false) : digit? c = none := by
  unfold Char.isDigit at h
  refine if_neg fun hdigit => ?_
  rw [Bool.and_eq_false_iff, decide_eq_false_iff_not, decide_eq_false_iff_not] at h
  exact h.elim (· hdigit.1) (· hdigit.2)

/-- More digits make no number smaller. -/
theorem le_ofDigitChars (t : Text) (value : Nat) : value ≤ Nat.ofDigitChars 10 t value := by
  induction t generalizing value with
  | nil => exact Nat.le_refl value
  | cons c t ih =>
      calc value ≤ 10 * value + (c.toNat - '0'.toNat) := by omega
        _ ≤ Nat.ofDigitChars 10 (c :: t) value := ih _

/-- The induction is on the digits, with the value of those before them below the limit. -/
theorem readDigits_eq_ok_iff {limit value n : Nat} {t : Text} (hvalue : value < limit) :
    readDigits limit value t = .ok n ↔
      (∀ c ∈ t, c.isDigit = true) ∧ Nat.ofDigitChars 10 t value = n ∧ n < limit := by
  induction t generalizing value with
  | nil =>
      rw [readDigits, Except.ok.injEq, Nat.ofDigitChars_nil]
      exact ⟨fun h => ⟨nofun, h, h ▸ hvalue⟩, fun h => h.2.1⟩
  | cons c t ih =>
      rw [readDigits]
      cases hc : c.isDigit with
      | false =>
          rw [digit?_of_not_isDigit hc]
          exact iff_of_false nofun fun h => by simp [hc] at h
      | true =>
          have hstep : value * 10 + (c.toNat - '0'.toNat) = 10 * value + (c.toNat - '0'.toNat) := by
            rw [Nat.mul_comm]
          rw [digit?_of_isDigit hc, List.forall_mem_cons, Nat.ofDigitChars_cons]
          dsimp only
          rw [hstep]
          split
          · rename_i hfit
            rw [ih hfit]
            simp [hc]
          · rename_i hover
            have hle := le_ofDigitChars t (10 * value + (c.toNat - '0'.toNat))
            exact iff_of_false nofun fun ⟨_, hn, hlimit⟩ => by omega

/-- A text that starts with no sign is read as digits. -/
theorem read_of_head {limit : Nat} {t : Text} (hne : t ≠ []) (h : t.head? ≠ some '+') :
    read limit t = readDigits limit 0 t := by
  unfold read
  split
  · exact absurd rfl hne
  · exact absurd rfl h
  · rfl

theorem read_plus {limit : Nat} {digits : Text} (hne : digits ≠ []) :
    read limit ('+' :: digits) = readDigits limit 0 digits := by
  obtain ⟨c, rest, rfl⟩ := List.exists_cons_of_ne_nil hne
  rfl

theorem Spells.head?_ne {digits : Text} (h : ∀ c ∈ digits, c.isDigit = true) :
    digits.head? ≠ some '+' := by
  intro hhead
  have hplus := h '+' (List.mem_of_mem_head? hhead)
  cases hplus

theorem read_eq_ok_iff {limit n : Nat} {t : Text} (hlimit : 0 < limit) :
    read limit t = .ok n ↔ Spells t n ∧ n < limit := by
  constructor
  · intro h
    by_cases hplus : t.head? = some '+'
    · obtain ⟨digits, rfl⟩ := List.head?_eq_some_iff.1 hplus
      have hne : digits ≠ [] := by
        rintro rfl
        cases h
      rw [read_plus hne, readDigits_eq_ok_iff hlimit] at h
      exact ⟨⟨digits, Or.inr rfl, hne, h.1, h.2.1⟩, h.2.2⟩
    · have hne : t ≠ [] := by
        rintro rfl
        cases h
      rw [read_of_head hne hplus, readDigits_eq_ok_iff hlimit] at h
      exact ⟨⟨t, Or.inl rfl, hne, h.1, h.2.1⟩, h.2.2⟩
  · rintro ⟨⟨digits, rfl | rfl, hne, hdigits, hvalue⟩, hfit⟩
    · rw [read_of_head hne (Spells.head?_ne hdigits)]
      exact (readDigits_eq_ok_iff hlimit).2 ⟨hdigits, hvalue, hfit⟩
    · rw [read_plus hne]
      exact (readDigits_eq_ok_iff hlimit).2 ⟨hdigits, hvalue, hfit⟩

/-- Numbers of a fixed width: a numeral is read as the word that stands for its number. -/
theorem map_read_eq_ok_iff {W : Type} {limit : Nat} {ofNat : Nat → W} {toNat : W → Nat}
    (hbound : ∀ w, toNat w < limit) (hinjective : Function.Injective toNat)
    (htoNat : ∀ m < limit, toNat (ofNat m) = m) {t : Text} {w : W} :
    (read limit t).map ofNat = .ok w ↔ Spells t (toNat w) := by
  have hlimit : 0 < limit := Nat.zero_lt_of_lt (hbound w)
  have hread := @read_eq_ok_iff limit (toNat w) t hlimit
  rw [and_iff_left (hbound w)] at hread
  rw [← hread]
  cases hvalue : read limit t with
  | error cause => exact iff_of_false nofun nofun
  | ok m =>
      obtain ⟨-, hm⟩ := (read_eq_ok_iff hlimit).1 hvalue
      rw [Except.map, Except.ok.injEq, Except.ok.injEq, ← hinjective.eq_iff, htoNat m hm]

theorem read32_eq_ok_iff {t : Text} {n : UInt32} : read32 t = .ok n ↔ Spells t n.toNat :=
  map_read_eq_ok_iff UInt32.toNat_lt_size (fun _ _ => UInt32.toNat_inj.1)
    fun _ => UInt32.toNat_ofNat_of_lt'

theorem read64_eq_ok_iff {t : Text} {n : UInt64} : read64 t = .ok n ↔ Spells t n.toNat :=
  map_read_eq_ok_iff UInt64.toNat_lt_size (fun _ _ => UInt64.toNat_inj.1)
    fun _ => UInt64.toNat_ofNat_of_lt'

theorem spells_write (n : Nat) : Spells (write n) n :=
  ⟨write n, Or.inl rfl, Nat.toDigits_ne_nil,
    fun _ hc => Nat.isDigit_of_mem_toDigits (by decide) (by decide) hc,
    Nat.ofDigitChars_ten_toDigits⟩

/-- Besides its digits a numeral has at most a plus sign. -/
theorem Spells.notMem {t : Text} {n : Nat} (h : Spells t n) {c : Char} (hdigit : c.isDigit = false)
    (hplus : c ≠ '+') : c ∉ t := by
  obtain ⟨digits, ht, -, hdigits, -⟩ := h
  have hnot : c ∉ digits := fun hc => by
    rw [hdigits c hc] at hdigit
    cases hdigit
  rcases ht with rfl | rfl
  · exact hnot
  · rw [List.mem_cons, not_or]
    exact ⟨hplus, hnot⟩

end Numeral

end ResourceMetrics
