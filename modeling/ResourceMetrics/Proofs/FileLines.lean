import ResourceMetrics.StatError
import ResourceMetrics.Proofs.Utf8Text

/-! Lines of contents that are put together, and lines that are written as text. Contents that end
in a newline pass their lines on unchanged, whatever comes behind them; the encoding of a text has a
newline byte only where the text has a newline, so a text without one is read back as one line. -/

namespace ResourceMetrics

def IsText (line : Bytes) : Prop := ∃ text, Utf8.decode? line = some text

/-- Contents whose last line, if they have one, is ended by a newline. -/
def Ended (contents : Bytes) : Prop := contents = [] ∨ contents.getLast? = some newline

theorem ended_concat (head : Bytes) : Ended (head ++ [newline]) := Or.inr List.getLast?_concat

theorem lines_ne_nil {contents : Bytes} (h : contents ≠ []) : lines contents ≠ [] := by
  obtain ⟨b, bs, rfl⟩ := List.exists_cons_of_ne_nil h
  rw [lines]
  split
  · exact List.cons_ne_nil _ _
  · exact List.cons_ne_nil _ _

theorem lines_append {contents : Bytes} (h : Ended contents) (more : Bytes) :
    lines (contents ++ more) = lines contents ++ lines more := by
  induction contents with
  | nil => rfl
  | cons b bs ih =>
      by_cases hb : b = newline
      · have hbs : Ended bs := by
          cases bs with
          | nil => exact Or.inl rfl
          | cons b' bs => exact h.imp nofun fun hlast => by rwa [List.getLast?_cons_cons] at hlast
        rw [List.cons_append, lines, lines, if_pos hb, if_pos hb, ih hbs]
        rfl
      · -- the line that starts here goes on in the rest, which is not empty
        obtain ⟨b', bs', rfl⟩ : ∃ b' bs', bs = b' :: bs' := by
          cases bs with
          | nil =>
              rcases h with hnil | hlast
              · cases hnil
              · exact absurd (Option.some.inj hlast) hb
          | cons b' bs' => exact ⟨b', bs', rfl⟩
        have hbs : Ended (b' :: bs') :=
          Or.inr (h.elim nofun fun hlast => by rwa [List.getLast?_cons_cons] at hlast)
        obtain ⟨line, others, hlines⟩ :=
          List.exists_cons_of_ne_nil (lines_ne_nil (List.cons_ne_nil b' bs'))
        rw [List.cons_append, lines, lines, if_neg hb, if_neg hb, ih hbs, hlines]
        rfl

theorem lines_line {line : Bytes} (h : newline ∉ line) (tail : Bytes) :
    lines (line ++ newline :: tail) = line :: lines tail := by
  induction line with
  | nil => rw [List.nil_append, lines, if_pos rfl]
  | cons b bs ih =>
      rw [List.mem_cons, not_or] at h
      rw [List.cons_append, lines, if_neg (Ne.symm h.1), ih h.2]
      rfl

theorem lines_singleton {line : Bytes} (h : newline ∉ line) (hne : line ≠ []) :
    lines line = [line] := by
  induction line with
  | nil => exact absurd rfl hne
  | cons b bs ih =>
      rw [List.mem_cons, not_or] at h
      rw [lines, if_neg (Ne.symm h.1)]
      cases bs with
      | nil => rfl
      | cons b' bs =>
          rw [ih h.2 (List.cons_ne_nil b' bs)]
          rfl

namespace Utf8

theorem decode?_encode (t : Text) : decode? (encode t) = some t := by
  rw [decode?, scan_encode]
  induction t with
  | nil => rfl
  | cons c cs ih =>
      rw [List.map_cons, List.mapM_cons, ih]
      rfl

theorem newline_notMem_encode {t : Text} (h : '\n' ∉ t) : newline ∉ encode t := by
  intro hmem
  obtain ⟨c, hc, hb⟩ := List.mem_flatMap.1 hmem
  have hcode : c.toNat = '\n'.toNat := (toNat_of_mem_encodeChar hb (by decide)).symm
  obtain rfl := Char.toNat_inj.1 hcode
  exact h hc

end Utf8

end ResourceMetrics
