/-!
Kernel counters, sizes and times are 64-bit words. Arithmetic on them either answers nothing when
the result does not fit, or stops at the bound, or, where nothing guards it, faults with an
`Overflow`.
-/

namespace ResourceMetrics

abbrev Counter := UInt64

/-- An arithmetic fault: it aborts the call in which it occurs. -/
inductive Overflow
  | addition
  | multiplication
  deriving Repr, DecidableEq

def Overflow.message : Overflow → String
  | .addition => "attempt to add with overflow"
  | .multiplication => "attempt to multiply with overflow"

namespace Counter

def ofNat? (n : Nat) : Option Counter :=
  if n < UInt64.size then some (UInt64.ofNat n) else none

def largest : Counter := UInt64.ofNat (UInt64.size - 1)

def ofNatSaturating (n : Nat) : Counter := (ofNat? n).getD largest

theorem ofNat?_eq_some_iff {n : Nat} {c : Counter} : ofNat? n = some c ↔ n = c.toNat := by
  have hc := c.toNat_lt_size
  unfold ofNat?
  split
  · rename_i hn
    rw [Option.some.injEq]
    constructor
    · rintro rfl
      rw [UInt64.toNat_ofNat_of_lt' hn]
    · intro h
      rw [h, UInt64.ofNat_toNat]
  · simp only [reduceCtorEq, false_iff]
    omega

theorem ofNat?_eq_none_iff {n : Nat} : ofNat? n = none ↔ UInt64.size ≤ n := by
  unfold ofNat?
  split <;> simp only [reduceCtorEq, true_iff, false_iff] <;> omega

def add? (a b : Counter) : Option Counter := ofNat? (a.toNat + b.toNat)

def mul? (a b : Counter) : Option Counter := ofNat? (a.toNat * b.toNat)

def sub? (a b : Counter) : Option Counter := if b ≤ a then some (a - b) else none

theorem add?_eq_some_iff {a b c : Counter} : a.add? b = some c ↔ a.toNat + b.toNat = c.toNat :=
  ofNat?_eq_some_iff

theorem mul?_eq_some_iff {a b c : Counter} : a.mul? b = some c ↔ a.toNat * b.toNat = c.toNat :=
  ofNat?_eq_some_iff

theorem sub?_eq_some_iff {a b c : Counter} : a.sub? b = some c ↔ b.toNat + c.toNat = a.toNat := by
  unfold sub?
  split
  · rename_i h
    have hab := UInt64.le_iff_toNat_le.1 h
    rw [Option.some.injEq, ← UInt64.toNat_inj, UInt64.toNat_sub_of_le a b h]
    omega
  · rename_i h
    have hab := mt UInt64.le_iff_toNat_le.2 h
    simp only [reduceCtorEq, false_iff]
    omega

def addSaturating (a b : Counter) : Counter := ofNatSaturating (a.toNat + b.toNat)

def mulSaturating (a b : Counter) : Counter := ofNatSaturating (a.toNat * b.toNat)

/-- The difference, or zero where it would be negative. -/
def monus (a b : Counter) : Counter := if b ≤ a then a - b else 0

theorem toNat_monus (a b : Counter) : (a.monus b).toNat = a.toNat - b.toNat := by
  unfold monus
  split
  · rename_i h
    exact UInt64.toNat_sub_of_le a b h
  · rename_i h
    have hab := mt UInt64.le_iff_toNat_le.2 h
    rw [UInt64.toNat_zero]
    omega

def addOrFault (a b : Counter) : Except Overflow Counter :=
  match add? a b with
  | some c => .ok c
  | none => .error .addition

theorem addOrFault_eq_ok_iff {a b c : Counter} :
    a.addOrFault b = .ok c ↔ a.toNat + b.toNat = c.toNat := by
  rw [← add?_eq_some_iff]
  unfold addOrFault
  split
  · rename_i hsum
    rw [hsum, Except.ok.injEq, Option.some.injEq]
  · rename_i hsum
    rw [hsum]
    exact iff_of_false nofun nofun

theorem addOrFault_error_iff {a b : Counter} :
    (∃ fault, a.addOrFault b = .error fault) ↔ UInt64.size ≤ a.toNat + b.toNat := by
  rw [← ofNat?_eq_none_iff, ← add?]
  unfold addOrFault
  split
  · rename_i hsum
    rw [hsum]
    exact iff_of_false nofun nofun
  · rename_i hsum
    exact iff_of_true ⟨.addition, rfl⟩ hsum

def mulOrFault (a b : Counter) : Except Overflow Counter :=
  match mul? a b with
  | some c => .ok c
  | none => .error .multiplication

end Counter

/-- A reading that is present and above zero; zero means that nothing is set or known. -/
def positive? (n : Option Counter) : Option Counter := n.filter (0 < ·)

theorem positive?_eq_some_iff {n : Option Counter} {k : Counter} :
    positive? n = some k ↔ n = some k ∧ 0 < k := by
  unfold positive?
  rw [Option.filter_eq_some_iff, decide_eq_true_eq]

theorem positive?_ne_none {n : Option Counter} {k : Counter} (hn : n = some k) (hk : 0 < k) :
    positive? n ≠ none := by
  rw [positive?_eq_some_iff.2 ⟨hn, hk⟩]
  exact Option.some_ne_none k

theorem positive?_eq_none_iff {n : Option Counter} :
    positive? n = none ↔ n = none ∨ n = some 0 := by
  unfold positive?
  cases n with
  | none => simp
  | some k =>
    rw [Option.filter_some_eq_none, decide_eq_true_eq, UInt64.pos_iff_ne_zero]
    simp

/-- A number of things in 32 bits, if it fits. -/
def count32? (n : Nat) : Option UInt32 :=
  if n < UInt32.size then some (UInt32.ofNat n) else none

/-- A number of things in 32 bits, or the largest such number. -/
def count32 (n : Nat) : UInt32 := (count32? n).getD (UInt32.ofNat (UInt32.size - 1))

end ResourceMetrics
