/-! Items that are read one after the other, up to the first one at fault. Whether an item is at
fault is told from it and from the items before it. A reading then ends well exactly if every item
is in order at its place, and otherwise it ends as the first item at fault says. -/

namespace ResourceMetrics

/-- What is wrong with an item, told from the items before it and from itself. -/
abbrev ItemFaults (ι ε : Type) := List ι → ι → ε → Prop

namespace ItemFaults

variable {ι ε β : Type} (faults : ItemFaults ι ε)

/-- No item is at fault at its place. -/
def Clear (items : List ι) : Prop :=
  ∀ before item after, items = before ++ item :: after → ∀ e, ¬faults before item e

/-- What is wrong with the first item that is at fault. -/
def First (items : List ι) (e : ε) : Prop :=
  ∃ before item after, items = before ++ item :: after ∧ faults.Clear before ∧ faults before item e

/-- Nothing else can be wrong with an item as well. -/
def Single : Prop := ∀ before item e e', faults before item e → faults before item e' → e = e'

/-- How a reading of the items ends. -/
def Outcome (good : β → Prop) (items : List ι) : Except ε β → Prop
  | .ok b => faults.Clear items ∧ good b
  | .error e => faults.First items e

variable {faults} {items more : List ι} {item : ι} {e e' : ε}

theorem clear_nil : faults.Clear [] := by
  intro before item after h
  exact absurd h.symm (List.append_ne_nil_of_right_ne_nil before (List.cons_ne_nil item after))

theorem Clear.of_append (h : faults.Clear (items ++ more)) : faults.Clear items := by
  rintro before item after rfl
  exact h before item (after ++ more) (by rw [List.append_assoc, List.cons_append])

theorem clear_concat_iff :
    faults.Clear (items ++ [item]) ↔ faults.Clear items ∧ ∀ e, ¬faults items item e := by
  constructor
  · intro h
    exact ⟨h.of_append, h items item [] rfl⟩
  · rintro ⟨hitems, hitem⟩ before i after hsplit
    obtain rfl | ⟨after, last, rfl⟩ := List.eq_nil_or_concat after
    · obtain ⟨rfl, hlast⟩ := List.append_inj' hsplit rfl
      obtain rfl := List.singleton_inj.1 hlast
      exact hitem
    · rw [List.concat_eq_append, ← List.cons_append, ← List.append_assoc] at hsplit
      exact hitems before i after (List.append_inj' hsplit rfl).1

theorem First.append (h : faults.First items e) (more : List ι) :
    faults.First (items ++ more) e := by
  obtain ⟨before, item, after, rfl, hclear, hfault⟩ := h
  exact ⟨before, item, after ++ more, by rw [List.append_assoc, List.cons_append], hclear, hfault⟩

theorem First.concat (hclear : faults.Clear items) (hfault : faults items item e) :
    faults.First (items ++ [item]) e :=
  ⟨items, item, [], rfl, hclear, hfault⟩

theorem First.not_clear (h : faults.First items e) : ¬faults.Clear items := by
  obtain ⟨before, item, after, hsplit, -, hfault⟩ := h
  exact fun hclear => hclear before item after hsplit e hfault

/-- An item at fault does not stand before the end of a clear list. -/
theorem Clear.length_le {before before' after after' : List ι} {item' : ι}
    (hclear : faults.Clear before') (hfault : faults before item e)
    (hsplit : before ++ item :: after = before' ++ item' :: after') :
    before'.length ≤ before.length := by
  obtain ⟨middle, rfl, hmiddle⟩ | ⟨middle, rfl, -⟩ := List.append_eq_append_iff.1 hsplit
  · cases middle with
    | nil => exact Nat.le_of_eq (by rw [List.append_nil])
    | cons first middle =>
        obtain ⟨rfl, -⟩ := List.cons.inj hmiddle
        exact absurd hfault (hclear before item middle rfl e)
  · rw [List.length_append]
    exact Nat.le_add_right _ _

theorem First.unique (hsingle : faults.Single) (h : faults.First items e)
    (h' : faults.First items e') : e = e' := by
  obtain ⟨before, item, after, rfl, hclear, hfault⟩ := h
  obtain ⟨before', item', after', hsplit, hclear', hfault'⟩ := h'
  have hlength : before.length = before'.length :=
    Nat.le_antisymm (hclear.length_le hfault' hsplit.symm) (hclear'.length_le hfault hsplit)
  obtain ⟨rfl, hrest⟩ := List.append_inj hsplit hlength
  obtain ⟨rfl, -⟩ := List.cons.inj hrest
  exact hsingle before item e e' hfault hfault'

theorem Outcome.error_iff {good : β → Prop} {x : Except ε β} (hsingle : faults.Single)
    (h : faults.Outcome good items x) : x = .error e ↔ faults.First items e := by
  cases x with
  | ok b => exact iff_of_false nofun fun hfirst => hfirst.not_clear h.1
  | error e' =>
      constructor
      · intro he
        exact Except.error.inj he ▸ h
      · intro hfirst
        rw [hfirst.unique hsingle h]

theorem Outcome.ok_iff {good : β → Prop} {x : Except ε β} {b : β}
    (hgood : ∀ b b', good b → good b' → b = b') (h : faults.Outcome good items x) :
    x = .ok b ↔ faults.Clear items ∧ good b := by
  cases x with
  | ok b' =>
      constructor
      · intro hb
        exact Except.ok.inj hb ▸ h
      · rintro ⟨-, hb⟩
        rw [hgood b' b h.2 hb]
  | error e => exact iff_of_false nofun fun hclear => First.not_clear h hclear.1

/-- A reading that goes on behind some first items, if those are in order. -/
theorem Outcome.bind {γ : Type} {good : β → Prop} {good' : γ → Prop} {front : List ι}
    {x : Except ε β} {f : β → Except ε γ} (h : faults.Outcome good front x)
    (hfront : front <+: items)
    (hf : ∀ b, faults.Clear front → good b → faults.Outcome good' items (f b)) :
    faults.Outcome good' items (x >>= f) := by
  cases x with
  | error e =>
      obtain ⟨more, rfl⟩ := hfront
      exact First.append h more
  | ok b => exact hf b h.1 h.2

end ItemFaults

end ResourceMetrics
