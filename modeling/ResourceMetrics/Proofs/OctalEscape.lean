import ResourceMetrics.Proofs.EscapedPath

/-! Escapes in the fields of a mount table, whoever wrote them. Bytes of which any were written as
escapes, and every backslash was, are got back; an escape stands for its number exactly. A backslash
in front of anything else than the three octal digits of a byte stays where it is, and what stands
before it is decoded apart from what stands behind it. -/

namespace ResourceMetrics

namespace MountEscape

/-- The byte of an octal digit. -/
def digit (n : Nat) : UInt8 := .ofNat (0x30 + n)

/-- A byte as a backslash and three octal digits. -/
def octal (b : UInt8) : Bytes :=
  [backslash, digit (b.toNat / 64), digit (b.toNat / 8 % 8), digit (b.toNat % 8)]

/-- The number of an escape is computed without overflow: no difference is negative, and the sum of
the products, and with it each of them, is the byte that comes out. -/
structure Exact (high middle low : UInt8) : Prop where
  differences : 0x30 ≤ high ∧ 0x30 ≤ middle ∧ 0x30 ≤ low
  sum : (high.toNat - 0x30) * 64 + (middle.toNat - 0x30) * 8 + (low.toNat - 0x30) =
    (value high middle low).toNat

variable {high middle low b : UInt8}

theorem isEscape_iff : isEscape high middle low = true ↔
    (0x30 ≤ high.toNat ∧ high.toNat ≤ 0x33) ∧ (0x30 ≤ middle.toNat ∧ middle.toNat ≤ 0x37) ∧
      0x30 ≤ low.toNat ∧ low.toNat ≤ 0x37 := by
  simp only [isEscape, isOctal, Bool.and_eq_true, decide_eq_true_eq, UInt8.le_iff_toNat_le,
    UInt8.reduceToNat]
  omega

theorem exact_of_isEscape (h : isEscape high middle low = true) : Exact high middle low := by
  obtain ⟨⟨hhigh, hhigh'⟩, ⟨hmiddle, hmiddle'⟩, hlow, hlow'⟩ := isEscape_iff.1 h
  have hdifferences : 0x30 ≤ high ∧ 0x30 ≤ middle ∧ 0x30 ≤ low := by
    simp only [UInt8.le_iff_toNat_le, UInt8.reduceToNat]
    exact ⟨hhigh, hmiddle, hlow⟩
  refine ⟨hdifferences, ?_⟩
  simp only [value, UInt8.toNat_add, UInt8.toNat_mul, UInt8.toNat_sub_of_le _ _ hdifferences.1,
    UInt8.toNat_sub_of_le _ _ hdifferences.2.1, UInt8.toNat_sub_of_le _ _ hdifferences.2.2,
    UInt8.reduceToNat]
  omega

theorem decodeBytes_escape (h : isEscape high middle low = true) (rest : Bytes) :
    decodeBytes (backslash :: high :: middle :: low :: rest) =
      value high middle low :: decodeBytes rest := by
  rw [decodeBytes, h]
  rfl

theorem toNat_digit {n : Nat} (h : n < 8) : (digit n).toNat = 0x30 + n :=
  UInt8.toNat_ofNat_of_lt' (by simp only [UInt8.size]; omega)

/-- Three digits of which the first is at most 3 are an escape, of the number that they spell. -/
theorem value_digit {n₁ n₂ n₃ : Nat} (h₁ : n₁ < 4) (h₂ : n₂ < 8) (h₃ : n₃ < 8) :
    isEscape (digit n₁) (digit n₂) (digit n₃) = true ∧
      (value (digit n₁) (digit n₂) (digit n₃)).toNat = n₁ * 64 + n₂ * 8 + n₃ := by
  have hdigit₁ : (digit n₁).toNat = 0x30 + n₁ := toNat_digit (by omega)
  have hescape : isEscape (digit n₁) (digit n₂) (digit n₃) = true := by
    rw [isEscape_iff, hdigit₁, toNat_digit h₂, toNat_digit h₃]
    omega
  refine ⟨hescape, ?_⟩
  rw [← (exact_of_isEscape hescape).sum, hdigit₁, toNat_digit h₂, toNat_digit h₃]
  omega

/-- What is read of the escape of a byte is the byte. -/
theorem decodeBytes_octal (b : UInt8) (rest : Bytes) :
    decodeBytes (octal b ++ rest) = b :: decodeBytes rest := by
  have hb := b.toNat_lt
  obtain ⟨hescape, hvalue⟩ := @value_digit (b.toNat / 64) (b.toNat / 8 % 8) (b.toNat % 8)
    (by omega) (by omega) (by omega)
  have hbyte : value (digit (b.toNat / 64)) (digit (b.toNat / 8 % 8)) (digit (b.toNat % 8)) =
      b := by
    rw [← UInt8.toNat_inj, hvalue]
    omega
  calc decodeBytes (octal b ++ rest)
      = value (digit (b.toNat / 64)) (digit (b.toNat / 8 % 8)) (digit (b.toNat % 8)) ::
          decodeBytes rest := decodeBytes_escape hescape rest
    _ = b :: decodeBytes rest := by rw [hbyte]

/-- Bytes as they stand, but for the chosen positions, where an escape is written. -/
def writeAt (chosen : Nat → Bool) (bs : Bytes) : Bytes :=
  bs.zipIdx.flatMap fun p => if chosen p.2 then octal p.1 else [p.1]

theorem decodeBytes_writeByte {escaped : Bool} (h : b = backslash → escaped = true)
    (rest : Bytes) :
    decodeBytes ((if escaped then octal b else [b]) ++ rest) = b :: decodeBytes rest := by
  split
  case isTrue => exact decodeBytes_octal b rest
  case isFalse hplain => exact decodeBytes_cons_of_ne (fun hb => hplain (h hb)) rest

/-- The induction is on the bytes, which may start at any position. -/
theorem decodeBytes_writeAt {chosen : Nat → Bool} {bs : Bytes}
    (h : ∀ i, bs[i]? = some backslash → chosen i = true) :
    decodeBytes (writeAt chosen bs) = bs := by
  have hfrom : ∀ (bs : Bytes) (start : Nat),
      (∀ p ∈ bs.zipIdx start, p.1 = backslash → chosen p.2 = true) →
        decodeBytes ((bs.zipIdx start).flatMap fun p => if chosen p.2 then octal p.1 else [p.1]) =
          bs := by
    intro bs
    induction bs with
    | nil => exact fun _ _ => rfl
    | cons b bs ih =>
        intro start hchosen
        rw [List.zipIdx_cons, List.forall_mem_cons] at hchosen
        rw [List.zipIdx_cons, List.flatMap_cons, decodeBytes_writeByte hchosen.1,
          ih (start + 1) hchosen.2]
  refine hfrom bs 0 fun p hp hbackslash => h p.2 ?_
  rw [List.mem_zipIdx_iff_getElem?.1 hp, hbackslash]

/-- Bytes that start with no three octal digits of a byte. -/
def StartsPlain (bs : Bytes) : Prop :=
  ∀ high middle low rest, bs = high :: middle :: low :: rest → isEscape high middle low = false

theorem decodeBytes_backslash {bs : Bytes} (h : StartsPlain bs) :
    decodeBytes (backslash :: bs) = backslash :: decodeBytes bs := by
  match bs with
  | [] => rfl
  | [_] => rfl
  | [_, _] => rfl
  | high :: middle :: low :: rest =>
      rw [decodeBytes, h high middle low rest rfl, Bool.and_false]
      rfl

theorem ne_backslash_of_isEscape (h : isEscape high middle low = true) :
    high ≠ backslash ∧ middle ≠ backslash ∧ low ≠ backslash := by
  obtain ⟨⟨-, hhigh⟩, ⟨-, hmiddle⟩, -, hlow⟩ := isEscape_iff.1 h
  have hbackslash : backslash.toNat = 0x5C := rfl
  refine ⟨?_, ?_, ?_⟩
  · rintro rfl
    omega
  · rintro rfl
    omega
  · rintro rfl
    omega

/-- A backslash is no octal digit, so the escape of one before it would have to be complete. -/
theorem startsPlain_append_backslash {front : Bytes}
    (hfront : ∀ high middle low rest, front ≠ high :: middle :: low :: rest) (bs : Bytes) :
    StartsPlain (front ++ backslash :: bs) := by
  intro high middle low rest heq
  rw [← Bool.not_eq_true]
  intro hescape
  obtain ⟨hhigh, hmiddle, hlow⟩ := ne_backslash_of_isEscape hescape
  match front with
  | [] =>
      obtain ⟨rfl, -⟩ := List.cons.inj heq
      exact hhigh rfl
  | [_] =>
      obtain ⟨-, heq⟩ := List.cons.inj heq
      obtain ⟨rfl, -⟩ := List.cons.inj heq
      exact hmiddle rfl
  | [_, _] =>
      obtain ⟨-, heq⟩ := List.cons.inj heq
      obtain ⟨-, heq⟩ := List.cons.inj heq
      obtain ⟨rfl, -⟩ := List.cons.inj heq
      exact hlow rfl
  | a :: b :: c :: more => exact hfront a b c more rfl

/-- What stands before a backslash is decoded apart from it. -/
theorem decodeBytes_append_backslash (front bs : Bytes) :
    decodeBytes (front ++ backslash :: bs) =
      decodeBytes front ++ decodeBytes (backslash :: bs) := by
  fun_induction decodeBytes front with
  | case1 b high middle low rest h ih =>
      simp only [List.cons_append]
      rw [decodeBytes, if_pos h, ih]
  | case2 b high middle low rest h ih =>
      simp only [List.cons_append] at ih ⊢
      rw [decodeBytes, if_neg h, ih]
  | case3 b rest hshort ih =>
      rw [List.cons_append, List.cons_append, ← ih]
      by_cases hb : b = backslash
      · rw [hb]
        exact decodeBytes_backslash (startsPlain_append_backslash hshort bs)
      · exact decodeBytes_cons_of_ne hb _
  | case4 => rfl

def isOctalDigit (c : Char) : Bool := '0' ≤ c && c ≤ '7'

/-- Whether a text starts with three octal digits that stand for a byte. -/
def startsEscape : Text → Bool
  | high :: middle :: low :: _ =>
    [high, middle, low].all isOctalDigit && Nat.ofDigitChars 8 [high, middle, low] 0 ≤ 0o377
  | _ => false

/-- A byte below `80` in front of a text is its first character. -/
theorem exists_cons_of_encode {t : Text} {bs : Bytes} (h : Utf8.encode t = b :: bs)
    (hb : b.toNat < 0x80) :
    ∃ c rest, t = c :: rest ∧ c.toNat = b.toNat ∧ Utf8.encode rest = bs := by
  match t with
  | [] => cases h
  | c :: rest =>
      rw [Utf8.encode, List.flatMap_cons, ← Utf8.encode] at h
      obtain ⟨d, ds, hchar⟩ := List.exists_cons_of_ne_nil (String.utf8EncodeChar_ne_nil (c := c))
      have hhead : d = b := by
        rw [hchar] at h
        exact (List.cons.inj h).1
      have hcode : b.toNat = c.toNat :=
        Utf8.toNat_of_mem_encodeChar (hchar ▸ hhead ▸ List.mem_cons_self) hb
      have hone : String.utf8EncodeChar c = [.ofNat c.toNat] := by
        rw [String.utf8EncodeChar.eq_1, ← Char.toNat, if_pos (by omega)]
      rw [hone] at h
      exact ⟨c, rest, rfl, hcode.symm, (List.cons.inj h).2⟩

theorem isOctalDigit_of_toNat {c : Char} (h : 0x30 ≤ c.toNat) (h' : c.toNat ≤ 0x37) :
    isOctalDigit c = true := by
  simp only [isOctalDigit, Bool.and_eq_true, decide_eq_true_eq, Char.le_def,
    UInt32.le_iff_toNat_le]
  exact ⟨h, h'⟩

/-- Text that starts no escape is written in bytes that start none. -/
theorem startsPlain_of_startsEscape {t : Text} (h : startsEscape t = false) :
    StartsPlain (Utf8.encode t) := by
  intro high middle low bytes heq
  rw [← Bool.not_eq_true]
  intro hescape
  obtain ⟨⟨hhigh, hhigh'⟩, ⟨hmiddle, hmiddle'⟩, hlow, hlow'⟩ := isEscape_iff.1 hescape
  obtain ⟨c₁, t₁, rfl, hc₁, heq⟩ := exists_cons_of_encode heq (by omega)
  obtain ⟨c₂, t₂, rfl, hc₂, heq⟩ := exists_cons_of_encode heq (by omega)
  obtain ⟨c₃, t₃, rfl, hc₃, -⟩ := exists_cons_of_encode heq (by omega)
  have hdigits : [c₁, c₂, c₃].all isOctalDigit = true := by
    simp only [List.all_cons, List.all_nil, Bool.and_true, Bool.and_eq_true]
    exact ⟨isOctalDigit_of_toNat (by omega) (by omega),
      isOctalDigit_of_toNat (by omega) (by omega), isOctalDigit_of_toNat (by omega) (by omega)⟩
  have hvalue : Nat.ofDigitChars 8 [c₁, c₂, c₃] 0 ≤ 0o377 := by
    simp only [Nat.ofDigitChars_cons, Nat.ofDigitChars_nil, Char.reduceToNat]
    omega
  rw [startsEscape, hdigits, decide_eq_true hvalue] at h
  cases h

/-- A backslash that starts no escape is kept, and the field is decoded on both sides of it. -/
theorem decode_append_backslash (before : Text) {after : Text} (h : startsEscape after = false) :
    decode (before ++ '\\' :: after) = decode before ++ '\\' :: decode after := by
  have hencode : Utf8.encode (before ++ '\\' :: after) =
      Utf8.encode before ++ backslash :: Utf8.encode after := by
    rw [Utf8.encode, List.flatMap_append, List.flatMap_cons]
    rfl
  have hbackslash : backslash < 0x80 := by decide
  rw [decode, hencode, decodeBytes_append_backslash,
    decodeBytes_backslash (startsPlain_of_startsEscape h), Utf8.decodeLossy_append_of_lt hbackslash]
  rfl

/-- A field without escapes is kept as it is. -/
theorem decodeBytes_encode_of_plain {field : Text}
    (h : ∀ after, '\\' :: after <:+ field → startsEscape after = false) :
    decodeBytes (Utf8.encode field) = Utf8.encode field := by
  induction field with
  | nil => rfl
  | cons c cs ih =>
      have hcs := ih fun after hafter => h after (hafter.trans (List.suffix_cons c cs))
      by_cases hc : c = '\\'
      · subst hc
        have hplain := startsPlain_of_startsEscape (h cs List.suffix_rfl)
        calc decodeBytes (Utf8.encode ('\\' :: cs))
            = backslash :: decodeBytes (Utf8.encode cs) := decodeBytes_backslash hplain
          _ = Utf8.encode ('\\' :: cs) := by
            rw [hcs]
            rfl
      · rw [Utf8.encode, List.flatMap_cons, ← Utf8.encode,
          decodeBytes_append (ne_backslash_of_mem_encodeChar hc), hcs]

/-- What decoding a field comes to, by where escapes were written in it. -/
structure EscapeLaw : Prop where
  /-- Any bytes are got back, up to those that are no text, if no backslash stands for itself. -/
  decode_written : ∀ {bs : Bytes} {chosen : Nat → Bool} {field : Text},
    (∀ i, bs[i]? = some backslash → chosen i = true) → Utf8.encode field = writeAt chosen bs →
      decode field = Utf8.decodeLossy bs
  decode_text : ∀ {t : Text} {chosen : Nat → Bool} {field : Text},
    (∀ i, (Utf8.encode t)[i]? = some backslash → chosen i = true) →
      Utf8.encode field = writeAt chosen (Utf8.encode t) → decode field = t
  no_overflow : ∀ {high middle low}, isEscape high middle low = true → Exact high middle low
  keep : ∀ before {after}, startsEscape after = false →
    decode (before ++ '\\' :: after) = decode before ++ '\\' :: decode after
  unchanged : ∀ {field}, (∀ after, '\\' :: after <:+ field → startsEscape after = false) →
    decode field = field

/-- Escapes are decoded wherever they stand, and nothing else is. -/
theorem escapeLaw : EscapeLaw where
  decode_written hchosen hfield := by
    rw [decode, hfield, decodeBytes_writeAt hchosen]
  decode_text hchosen hfield := by
    rw [decode, hfield, decodeBytes_writeAt hchosen, Utf8.decodeLossy_encode]
  no_overflow := exact_of_isEscape
  keep before := decode_append_backslash before
  unchanged hplain := by
    rw [decode, decodeBytes_encode_of_plain hplain, Utf8.decodeLossy_encode]

/-- Both bytes of an `é`, a backslash in front of a digit and a byte that is no text, all of them
escaped; and escapes that are too large and too short. -/
theorem escapeLaw_multibyte :
    decode "/\\303\\251\\1341\\377".toList = "/é\\1\uFFFD".toList ∧
      decode "\\400\\04".toList = "\\400\\04".toList := by
  have hchosen : ∀ i, ([0x2F, 0xC3, 0xA9, 0x5C, 0x31, 0xFF] : Bytes)[i]? = some backslash →
      [1, 2, 3, 5].contains i = true := by
    intro i hi
    have hbelow : ∀ i < 6, ([0x2F, 0xC3, 0xA9, 0x5C, 0x31, 0xFF] : Bytes)[i]? = some backslash →
        [1, 2, 3, 5].contains i = true := by decide
    exact hbelow i (List.getElem?_eq_some_iff.1 hi).1 hi
  have hwritten : decode "/\\303\\251\\1341\\377".toList =
      Utf8.decodeLossy [0x2F, 0xC3, 0xA9, 0x5C, 0x31, 0xFF] :=
    escapeLaw.decode_written hchosen rfl
  have hlarge : decode "\\400\\04".toList = decode [] ++ '\\' :: decode "400\\04".toList :=
    escapeLaw.keep [] rfl
  have hshort : decode "400\\04".toList = decode "400".toList ++ '\\' :: decode "04".toList :=
    escapeLaw.keep "400".toList rfl
  refine ⟨hwritten.trans (by decide), ?_⟩
  rw [hlarge, hshort]
  decide

end MountEscape

end ResourceMetrics
