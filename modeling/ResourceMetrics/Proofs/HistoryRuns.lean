import Mathlib.Data.List.Forall2
import ResourceMetrics.Proofs.LoadRun

/-! Runs of samples that are fed to one history, and pairs of such runs. Every sample is stored,
whether it is complete or not, so a load depends on the sample before it and on nothing older: runs
that end alike give the same last load, and an incomplete sample spoils no load but its own and the
next. Of complete samples only the differences count. -/

namespace ResourceMetrics

variable {σ α : Type} [LoadScale α]

/-- A usage and a total that are fed to a history together; either may be missing. -/
abbrev SamplePair := Option Counter × Option Counter

namespace LoadHistory

/-- The loads that samples answer one after the other. -/
def loads (α : Type) [LoadScale α] : LoadHistory → List SamplePair → List (Option α)
  | _, [] => []
  | last, (usage, total) :: rest => last.load? usage total :: loads α (.ofSamples usage total) rest

/-- The history that samples leave behind. -/
def after : LoadHistory → List SamplePair → LoadHistory
  | last, [] => last
  | _, (usage, total) :: rest => after (.ofSamples usage total) rest

theorem mapM_advance (run : List SamplePair) (s : Session σ) :
    run.mapM (fun p => Monitor.advance p.1 p.2) s =
      .ok (s.history.loads α run) { s with history := s.history.after run } := by
  induction run generalizing s with
  | nil => rfl
  | cons p rest ih =>
      have hfirst : Monitor.advance p.1 p.2 s =
          .ok (s.history.load? p.1 p.2 : Option α) { s with history := .ofSamples p.1 p.2 } := rfl
      rw [List.mapM_cons, Reading.bind_ok hfirst, Reading.bind_ok (ih _)]
      rfl

theorem length_loads (last : LoadHistory) (run : List SamplePair) :
    (last.loads α run).length = run.length := by
  induction run generalizing last with
  | nil => rfl
  | cons p rest ih => rw [loads, List.length_cons, List.length_cons, ih]

theorem loads_append (last : LoadHistory) (run run' : List SamplePair) :
    last.loads α (run ++ run') = last.loads α run ++ (last.after run).loads α run' := by
  induction run generalizing last with
  | nil => rfl
  | cons p rest ih => rw [List.cons_append, loads, loads, after, ih, List.cons_append]

theorem after_append (last : LoadHistory) (run run' : List SamplePair) :
    last.after (run ++ run') = (last.after run).after run' := by
  induction run generalizing last with
  | nil => rfl
  | cons p rest ih => rw [List.cons_append, after, after, ih]

/-- Whatever came before, the last load is measured against the last sample but one. -/
theorem getLast?_loads (last : LoadHistory) (before : List SamplePair) (p q : SamplePair) :
    (last.loads α (before ++ [p, q])).getLast? =
      some ((ofSamples p.1 p.2).load? q.1 q.2) := by
  rw [loads_append, List.getLast?_append]
  rfl

theorem after_concat (last : LoadHistory) (before : List SamplePair) (p : SamplePair) :
    last.after (before ++ [p]) = ofSamples p.1 p.2 := by
  rw [after_append]
  rfl

/-- The load of a complete sample, by the numbers that the counters stand for. -/
theorem load?_complete (last : LoadHistory) (u : Counter) {t : Counter} (ht : 0 < t) :
    (last.load? (some u) (some t) : Option α) =
      some (if last.usage.toNat < u.toNat ∧ last.total.toNat < t.toNat then
        Load.clamp (LoadScale.ofNat (u.toNat - last.usage.toNat) /
          LoadScale.ofNat (t.toNat - last.total.toNat))
        else Load.zero) := by
  rw [load?_some last u ht]
  simp only [UInt64.lt_iff_toNat_lt]
  split
  · rename_i h
    have husage : last.usage ≤ u := UInt64.le_iff_toNat_le.2 (Nat.le_of_lt h.1)
    have htotal : last.total ≤ t := UInt64.le_iff_toNat_le.2 (Nat.le_of_lt h.2)
    rw [Load.ratio, UInt64.toNat_sub_of_le _ _ husage, UInt64.toNat_sub_of_le _ _ htotal]
  · rfl

/-- Complete samples with positive totals, of which the second is further by a usage of `a` and a
total of `b`. -/
inductive Shifted (a b : Int) : SamplePair → SamplePair → Prop
  | intro {u t u' t' : Counter} : 0 < t → 0 < t' → (u'.toNat : Int) = u.toNat + a →
      (t'.toNat : Int) = t.toNat + b → Shifted a b (some u, some t) (some u', some t')

/-- A load does not see a shift of both samples that it is measured between. -/
theorem Shifted.load?_eq {a b : Int} {p p' q q' : SamplePair} (hp : Shifted a b p p')
    (hq : Shifted a b q q') : ((ofSamples p.1 p.2).load? q.1 q.2 : Option α) =
      (ofSamples p'.1 p'.2).load? q'.1 q'.2 := by
  cases hp with
  | @intro u₁ t₁ u₁' t₁' _ _ hu₁ ht₁ =>
      cases hq with
      | @intro u₂ t₂ u₂' t₂' hpos hpos' hu₂ ht₂ =>
          have hgrown : u₁.toNat < u₂.toNat ∧ t₁.toNat < t₂.toNat ↔
              u₁'.toNat < u₂'.toNat ∧ t₁'.toNat < t₂'.toNat := by omega
          have husage : u₂'.toNat - u₁'.toNat = u₂.toNat - u₁.toNat := by omega
          have htotal : t₂'.toNat - t₁'.toNat = t₂.toNat - t₁.toNat := by omega
          rw [load?_complete _ _ hpos, load?_complete _ _ hpos']
          simp only [ofSamples, Option.getD_some, husage, htotal, hgrown]

/-- Shifted runs differ in their first load at most. -/
theorem loads_ofSamples_of_shifted {a b : Int} {run run' : List SamplePair}
    (h : List.Forall₂ (Shifted a b) run run') {p p' : SamplePair} (hp : Shifted a b p p') :
    (ofSamples p.1 p.2).loads α run = (ofSamples p'.1 p'.2).loads α run' := by
  induction h generalizing p p' with
  | nil => rfl
  | cons hq hrest ih => rw [loads, loads, hp.load?_eq hq, ih hq]

/-- What runs of samples have in common, whatever histories they start from. -/
structure RunLaw (α : Type) [LoadScale α] : Prop where
  run_eq : ∀ {σ : Type} (run : List SamplePair) (s : Session σ),
    run.mapM (fun p => Monitor.advance p.1 p.2) s =
      .ok (s.history.loads α run) { s with history := s.history.after run }
  length_eq : ∀ (last : LoadHistory) (run : List SamplePair),
    (last.loads α run).length = run.length
  shifted : ∀ {a b : Int} {run run' : List SamplePair}, List.Forall₂ (Shifted a b) run run' →
    ∀ last last' : LoadHistory, (last.loads α run).tail = (last'.loads α run').tail
  /-- Runs that end with the same two samples. -/
  forgetting : ∀ (last last' : LoadHistory) (before before' : List SamplePair) (p q : SamplePair),
    (last.loads α (before ++ [p, q])).getLast? = (last'.loads α (before' ++ [p, q])).getLast? ∧
      last.after (before ++ [p, q]) = last'.after (before' ++ [p, q])
  /-- Two complete samples in a row, after any others; only the second total has to be positive. -/
  recovery : ∀ (last : LoadHistory) (before : List SamplePair) {u₁ t₁ u₂ t₂ : Counter},
    0 < t₂ → (last.loads α (before ++ [(some u₁, some t₁), (some u₂, some t₂)])).getLast? =
      some (some (if u₁.toNat < u₂.toNat ∧ t₁.toNat < t₂.toNat then
        Load.clamp (LoadScale.ofNat (u₂.toNat - u₁.toNat) /
          LoadScale.ofNat (t₂.toNat - t₁.toNat))
        else Load.zero))

/-- A load is measured between two samples and depends on nothing before them. -/
theorem runLaw (α : Type) [LoadScale α] : RunLaw α where
  run_eq := mapM_advance
  length_eq := length_loads
  shifted {a b run run'} h last last' := by
    cases h with
    | nil => rfl
    | cons hp hrest => exact loads_ofSamples_of_shifted hrest hp
  forgetting last last' before before' p q := by
    refine ⟨?_, ?_⟩
    · rw [getLast?_loads, getLast?_loads]
    · have hsplit (front : List SamplePair) : front ++ [p, q] = front ++ [p] ++ [q] :=
        (List.append_assoc front [p] [q]).symm
      rw [hsplit, hsplit, after_concat, after_concat]
  recovery last before {u₁ t₁ u₂ t₂} ht₂ := by
    rw [getLast?_loads, load?_complete _ _ ht₂]
    rfl

/-- Behind a missing usage, a total of zero and a reset, two complete samples give a half. -/
theorem runLaw_after_gaps :
    (({ usage := 70, total := 90 } : LoadHistory).loads Rat
      ([(none, some 100), (some 80, some 0), (some 5, some 9)] ++
        [(some 20, some 30), (some 25, some 40)])).getLast? = some (some (1 / 2)) := by
  have hpos : (0 : Counter) < 40 := by decide
  refine ((runLaw Rat).recovery _ _ hpos).trans ?_
  decide +kernel

end LoadHistory

end ResourceMetrics
