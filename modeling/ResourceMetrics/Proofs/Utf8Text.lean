import ResourceMetrics.Utf8

/-! Text is got back from its bytes. The scan of a character's bytes is followed from the first of
them, which tells how many there are, to the last, which closes the character. -/

namespace ResourceMetrics

namespace Utf8

theorem not_lt_of_toNat_le {b bound : UInt8} (h : bound.toNat ≤ b.toNat) : ¬b < bound :=
  fun hlt => Nat.not_lt.2 h (UInt8.lt_iff_toNat_lt.1 hlt)

theorem start_of_lt_80 {b : UInt8} (h : b.toNat < 0x80) :
    start b = .emit (some (Char.ofNat b.toNat)) := by
  have hb : b < 0x80 := UInt8.lt_iff_toNat_lt.2 h
  rw [start, if_pos hb]

theorem start_of_lt_E0 {b : UInt8} (h : 0xC2 ≤ b.toNat) (h' : b.toNat < 0xE0) :
    start b = .more ⟨b.toNat - 0xC0, 0, 0x80, 0xBF⟩ := by
  have h₁ : ¬b < 0x80 := not_lt_of_toNat_le (Nat.le_trans (by decide) h)
  have h₂ : ¬b < 0xC2 := not_lt_of_toNat_le (Nat.le_trans (by decide) h)
  have h₃ : b < 0xE0 := UInt8.lt_iff_toNat_lt.2 h'
  rw [start, if_neg h₁, if_neg h₂, if_pos h₃]

theorem start_of_lt_F0 {b : UInt8} (h : 0xE0 ≤ b.toNat) (h' : b.toNat < 0xF0) :
    start b = .more ⟨b.toNat - 0xE0, 1, if b = 0xE0 then 0xA0 else 0x80,
      if b = 0xED then 0x9F else 0xBF⟩ := by
  have h₁ : ¬b < 0x80 := not_lt_of_toNat_le (Nat.le_trans (by decide) h)
  have h₂ : ¬b < 0xC2 := not_lt_of_toNat_le (Nat.le_trans (by decide) h)
  have h₃ : ¬b < 0xE0 := not_lt_of_toNat_le (Nat.le_trans (by decide) h)
  have h₄ : b < 0xF0 := UInt8.lt_iff_toNat_lt.2 h'
  rw [start, if_neg h₁, if_neg h₂, if_neg h₃, if_pos h₄]

theorem start_of_lt_F5 {b : UInt8} (h : 0xF0 ≤ b.toNat) (h' : b.toNat < 0xF5) :
    start b = .more ⟨b.toNat - 0xF0, 2, if b = 0xF0 then 0x90 else 0x80,
      if b = 0xF4 then 0x8F else 0xBF⟩ := by
  have h₁ : ¬b < 0x80 := not_lt_of_toNat_le (Nat.le_trans (by decide) h)
  have h₂ : ¬b < 0xC2 := not_lt_of_toNat_le (Nat.le_trans (by decide) h)
  have h₃ : ¬b < 0xE0 := not_lt_of_toNat_le (Nat.le_trans (by decide) h)
  have h₄ : ¬b < 0xF0 := not_lt_of_toNat_le (Nat.le_trans (by decide) h)
  have h₅ : b < 0xF5 := UInt8.lt_iff_toNat_lt.2 h'
  rw [start, if_neg h₁, if_neg h₂, if_neg h₃, if_neg h₄, if_pos h₅]

theorem Partial.accepts_of {p : Partial} {b : UInt8} (hlow : p.low.toNat ≤ b.toNat)
    (hhigh : b.toNat ≤ p.high.toNat) : p.accepts b = true := by
  rw [Partial.accepts, Bool.and_eq_true, decide_eq_true_eq, decide_eq_true_eq]
  exact ⟨UInt8.le_iff_toNat_le.2 hlow, UInt8.le_iff_toNat_le.2 hhigh⟩

theorem toNat_ofNat_continuation (n : Nat) : (UInt8.ofNat (n % 64 + 128)).toNat = n % 64 + 128 :=
  UInt8.toNat_ofNat_of_lt' (by simp only [UInt8.size]; omega)

/-- A continuation byte that the open character accepts adds its six bits. -/
theorem scanFrom_some_continuation {p : Partial} {n : Nat} (hlow : p.low.toNat ≤ n % 64 + 128)
    (hhigh : n % 64 + 128 ≤ p.high.toNat) (bs : Bytes) :
    scanFrom (some p) (UInt8.ofNat (n % 64 + 128) :: bs) =
      match p.later with
      | 0 => some (Char.ofNat (p.value * 64 + n % 64)) :: scanFrom none bs
      | later + 1 => scanFrom (some ⟨p.value * 64 + n % 64, later, 0x80, 0xBF⟩) bs := by
  have hbyte : (UInt8.ofNat (n % 64 + 128)).toNat = n % 64 + 128 := toNat_ofNat_continuation n
  have haccepts : p.accepts (UInt8.ofNat (n % 64 + 128)) = true :=
    Partial.accepts_of (by omega) (by omega)
  have hbits : n % 64 + 128 - 0x80 = n % 64 := Nat.add_sub_cancel ..
  rw [scanFrom, if_pos haccepts, Partial.feed, hbyte, hbits]
  cases p.later <;> rfl

theorem scanFrom_some_continuation_full {value later n : Nat} (bs : Bytes) :
    scanFrom (some ⟨value, later, 0x80, 0xBF⟩) (UInt8.ofNat (n % 64 + 128) :: bs) =
      match later with
      | 0 => some (Char.ofNat (value * 64 + n % 64)) :: scanFrom none bs
      | later + 1 => scanFrom (some ⟨value * 64 + n % 64, later, 0x80, 0xBF⟩) bs :=
  scanFrom_some_continuation (by simp only [UInt8.reduceToNat]; omega)
    (by simp only [UInt8.reduceToNat]; omega) bs

theorem toNat_ite_le {lead edge narrow wide : UInt8} {n : Nat}
    (hedge : lead.toNat = edge.toNat → narrow.toNat ≤ n) (hwide : wide.toNat ≤ n) :
    (if lead = edge then narrow else wide).toNat ≤ n := by
  split
  case isTrue h => exact hedge (congrArg UInt8.toNat h)
  case isFalse => exact hwide

theorem le_toNat_ite {lead edge narrow wide : UInt8} {n : Nat}
    (hedge : lead.toNat = edge.toNat → n ≤ narrow.toNat) (hwide : n ≤ wide.toNat) :
    n ≤ (if lead = edge then narrow else wide).toNat := by
  split
  case isTrue h => exact hedge (congrArg UInt8.toNat h)
  case isFalse => exact hwide

theorem scanFrom_none_one {n : Nat} (h : n < 0x80) (rest : Bytes) :
    scanFrom none (UInt8.ofNat n :: rest) = some (Char.ofNat n) :: scanFrom none rest := by
  have hn : (UInt8.ofNat n).toNat = n := UInt8.toNat_ofNat_of_lt' (by simp only [UInt8.size]; omega)
  rw [scanFrom, start_of_lt_80 (by omega), hn]

theorem scanFrom_none_two {n : Nat} (h : 0x80 ≤ n) (h' : n < 0x800) (rest : Bytes) :
    scanFrom none (UInt8.ofNat (n / 64 % 32 + 192) :: UInt8.ofNat (n % 64 + 128) :: rest) =
      some (Char.ofNat n) :: scanFrom none rest := by
  have hlead : (UInt8.ofNat (n / 64 % 32 + 192)).toNat = n / 64 % 32 + 192 :=
    UInt8.toNat_ofNat_of_lt' (by simp only [UInt8.size]; omega)
  have hvalue : (n / 64 % 32 + 192 - 0xC0) * 64 + n % 64 = n := by omega
  rw [scanFrom, start_of_lt_E0 (by omega) (by omega)]
  dsimp only
  rw [scanFrom_some_continuation_full, hlead]
  dsimp only
  rw [hvalue]

/-- The number is no shorter form's and no surrogate, so the second byte is in its range. -/
theorem scanFrom_none_three {n : Nat} (h : 0x800 ≤ n) (h' : n < 0x10000)
    (hvalid : n < 0xD800 ∨ 0xDFFF < n) (rest : Bytes) :
    scanFrom none (UInt8.ofNat (n / 4096 % 16 + 224) :: UInt8.ofNat (n / 64 % 64 + 128) ::
      UInt8.ofNat (n % 64 + 128) :: rest) = some (Char.ofNat n) :: scanFrom none rest := by
  have hlead : (UInt8.ofNat (n / 4096 % 16 + 224)).toNat = n / 4096 % 16 + 224 :=
    UInt8.toNat_ofNat_of_lt' (by simp only [UInt8.size]; omega)
  have hvalue : ((n / 4096 % 16 + 224 - 0xE0) * 64 + n / 64 % 64) * 64 + n % 64 = n := by omega
  generalize UInt8.ofNat (n / 4096 % 16 + 224) = lead at hlead
  have hlow : (if lead = 0xE0 then (0xA0 : UInt8) else 0x80).toNat ≤ n / 64 % 64 + 128 :=
    toNat_ite_le (by simp only [UInt8.reduceToNat]; omega) (by simp only [UInt8.reduceToNat]; omega)
  have hhigh : n / 64 % 64 + 128 ≤ (if lead = 0xED then (0x9F : UInt8) else 0xBF).toNat :=
    le_toNat_ite (by simp only [UInt8.reduceToNat]; omega) (by simp only [UInt8.reduceToNat]; omega)
  rw [scanFrom, start_of_lt_F0 (by omega) (by omega)]
  dsimp only
  rw [scanFrom_some_continuation hlow hhigh]
  dsimp only
  rw [scanFrom_some_continuation_full, hlead]
  dsimp only
  rw [hvalue]

/-- The number is no shorter form's and at most `10FFFF`, so the second byte is in its range. -/
theorem scanFrom_none_four {n : Nat} (h : 0x10000 ≤ n) (h' : n < 0x110000) (rest : Bytes) :
    scanFrom none (UInt8.ofNat (n / 262144 % 8 + 240) :: UInt8.ofNat (n / 4096 % 64 + 128) ::
      UInt8.ofNat (n / 64 % 64 + 128) :: UInt8.ofNat (n % 64 + 128) :: rest) =
      some (Char.ofNat n) :: scanFrom none rest := by
  have hlead : (UInt8.ofNat (n / 262144 % 8 + 240)).toNat = n / 262144 % 8 + 240 :=
    UInt8.toNat_ofNat_of_lt' (by simp only [UInt8.size]; omega)
  have hvalue : (((n / 262144 % 8 + 240 - 0xF0) * 64 + n / 4096 % 64) * 64 + n / 64 % 64) * 64 +
      n % 64 = n := by omega
  generalize UInt8.ofNat (n / 262144 % 8 + 240) = lead at hlead
  have hlow : (if lead = 0xF0 then (0x90 : UInt8) else 0x80).toNat ≤ n / 4096 % 64 + 128 :=
    toNat_ite_le (by simp only [UInt8.reduceToNat]; omega) (by simp only [UInt8.reduceToNat]; omega)
  have hhigh : n / 4096 % 64 + 128 ≤ (if lead = 0xF4 then (0x8F : UInt8) else 0xBF).toNat :=
    le_toNat_ite (by simp only [UInt8.reduceToNat]; omega) (by simp only [UInt8.reduceToNat]; omega)
  rw [scanFrom, start_of_lt_F5 (by omega) (by omega)]
  dsimp only
  rw [scanFrom_some_continuation hlow hhigh]
  dsimp only
  rw [scanFrom_some_continuation_full]
  dsimp only
  rw [scanFrom_some_continuation_full, hlead]
  dsimp only
  rw [hvalue]

/-- The bytes of a character are scanned as that character. -/
theorem scanFrom_none_encodeChar (c : Char) (rest : Bytes) :
    scanFrom none (String.utf8EncodeChar c ++ rest) = some c :: scanFrom none rest := by
  have hvalid : c.toNat < 0xD800 ∨ 0xDFFF < c.toNat ∧ c.toNat < 0x110000 := c.valid
  rw [String.utf8EncodeChar.eq_1, ← Char.toNat]
  refine Eq.trans ?_ (congrArg (some · :: scanFrom none rest) (Char.ofNat_toNat c))
  by_cases h₁ : c.toNat ≤ 127
  · rw [if_pos h₁]
    exact scanFrom_none_one (by omega) rest
  by_cases h₂ : c.toNat ≤ 2047
  · rw [if_neg h₁, if_pos h₂]
    exact scanFrom_none_two (by omega) (by omega) rest
  by_cases h₃ : c.toNat ≤ 65535
  · rw [if_neg h₁, if_neg h₂, if_pos h₃]
    exact scanFrom_none_three (by omega) (by omega) (by omega) rest
  · rw [if_neg h₁, if_neg h₂, if_neg h₃]
    exact scanFrom_none_four (by omega) (by omega) rest

/-- A byte below `80` stands for the character of its number, and for no part of another one. -/
theorem toNat_of_mem_encodeChar {c : Char} {b : UInt8} (hb : b ∈ String.utf8EncodeChar c)
    (hlt : b.toNat < 0x80) : b.toNat = c.toNat := by
  have htoNat {n : Nat} (hn : n < 256) (h : b = UInt8.ofNat n) : b.toNat = n := by
    rw [h, UInt8.toNat_ofNat_of_lt' hn]
  rw [String.utf8EncodeChar.eq_1, ← Char.toNat] at hb
  by_cases h₁ : c.toNat ≤ 127
  · rw [if_pos h₁, List.mem_singleton] at hb
    exact htoNat (by omega) hb
  -- every byte of a longer form has its high bit set
  exfalso
  by_cases h₂ : c.toNat ≤ 2047
  · simp only [if_neg h₁, if_pos h₂, List.mem_cons, List.not_mem_nil, or_false] at hb
    obtain h | h := hb <;> have := htoNat (by omega) h <;> omega
  by_cases h₃ : c.toNat ≤ 65535
  · simp only [if_neg h₁, if_neg h₂, if_pos h₃, List.mem_cons, List.not_mem_nil, or_false] at hb
    obtain h | h | h := hb <;> have := htoNat (by omega) h <;> omega
  · simp only [if_neg h₁, if_neg h₂, if_neg h₃, List.mem_cons, List.not_mem_nil, or_false] at hb
    obtain h | h | h | h := hb <;> have := htoNat (by omega) h <;> omega

theorem le_ite_low {lead edge narrow wide : UInt8} (hnarrow : 0x80 ≤ narrow) (hwide : 0x80 ≤ wide) :
    0x80 ≤ (if lead = edge then narrow else wide) := by
  split
  · exact hnarrow
  · exact hwide

theorem start_more_low {b : UInt8} {p : Partial} (h : start b = .more p) : 0x80 ≤ p.low := by
  unfold start at h
  split at h
  · cases h
  split at h
  · cases h
  split at h
  · obtain rfl := Step.more.inj h
    exact UInt8.le_refl 0x80
  split at h
  · obtain rfl := Step.more.inj h
    exact le_ite_low (by decide) (by decide)
  split at h
  · obtain rfl := Step.more.inj h
    exact le_ite_low (by decide) (by decide)
  · cases h

theorem Partial.feed_more_low {p q : Partial} {b : UInt8} (h : p.feed b = .more q) :
    0x80 ≤ q.low := by
  unfold Partial.feed at h
  cases hlater : p.later with
  | zero =>
      rw [hlater] at h
      cases h
  | succ later =>
      rw [hlater] at h
      obtain rfl := Step.more.inj h
      exact UInt8.le_refl 0x80

theorem Partial.accepts_of_lt {p : Partial} {b : UInt8} (hp : 0x80 ≤ p.low) (hb : b < 0x80) :
    p.accepts b = false := by
  have hlow : ¬p.low ≤ b := UInt8.not_le.2 (UInt8.lt_of_lt_of_le hb hp)
  rw [Partial.accepts, decide_eq_false hlow, Bool.false_and]

/-- A byte below `80` ends whatever character is open before it and is a character of its own. The
induction is on the bytes before it, with any character open that a first byte can have opened. -/
theorem scanFrom_append_of_lt {b : UInt8} (hb : b < 0x80) (front back : Bytes) :
    ∀ p : Option Partial, (∀ q ∈ p, 0x80 ≤ q.low) →
      scanFrom p (front ++ b :: back) =
        scanFrom p front ++ some (Char.ofNat b.toNat) :: scanFrom none back := by
  have hstart : start b = .emit (some (Char.ofNat b.toNat)) := by rw [start, if_pos hb]
  induction front with
  | nil =>
      intro p hp
      cases p with
      | none => simp only [List.nil_append, scanFrom, hstart]
      | some q =>
          simp only [List.nil_append, scanFrom, Partial.accepts_of_lt (hp q rfl) hb, hstart]
          rfl
  | cons d front ih =>
      intro p hp
      have hfresh : scanFrom none (d :: front ++ b :: back) =
          scanFrom none (d :: front) ++ some (Char.ofNat b.toNat) :: scanFrom none back := by
        rw [List.cons_append, scanFrom, scanFrom]
        cases hstep : start d with
        | emit c => exact congrArg (c :: ·) (ih none nofun)
        | more q => exact ih (some q) fun _ h => Option.some.inj h ▸ start_more_low hstep
      cases p with
      | none => exact hfresh
      | some q =>
          rw [List.cons_append, scanFrom, scanFrom]
          split
          · cases hstep : q.feed d with
            | emit c => exact congrArg (c :: ·) (ih none nofun)
            | more q' =>
                exact ih (some q') fun _ h => Option.some.inj h ▸ Partial.feed_more_low hstep
          · exact congrArg (none :: ·) hfresh

theorem scan_encode (t : Text) : scan (encode t) = t.map some := by
  induction t with
  | nil => rfl
  | cons c cs ih =>
    calc scan (encode (c :: cs))
        = scanFrom none (String.utf8EncodeChar c ++ encode cs) := by
          rw [scan, encode, encode, List.flatMap_cons]
      _ = some c :: scan (encode cs) := scanFrom_none_encodeChar c (encode cs)
      _ = (c :: cs).map some := by rw [ih, List.map_cons]

/-- Text is decoded in parts on both sides of a byte below `80`, invalid bytes included. -/
theorem decodeLossy_append_of_lt {b : UInt8} (hb : b < 0x80) (front back : Bytes) :
    decodeLossy (front ++ b :: back) =
      decodeLossy front ++ Char.ofNat b.toNat :: decodeLossy back := by
  rw [decodeLossy, scan, scanFrom_append_of_lt hb front back none nofun, List.map_append,
    List.map_cons]
  rfl

theorem decodeLossy_encode (t : Text) : decodeLossy (encode t) = t := by
  rw [decodeLossy, scan_encode, List.map_map]
  exact List.map_id t

end Utf8

end ResourceMetrics
