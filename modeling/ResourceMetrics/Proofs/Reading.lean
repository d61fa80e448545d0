import ResourceMetrics.Monitor

/-! What readings answer and where they leave their sources. One judgement serves total and partial
correctness: its first argument says whether the reading may fault. A reading that is asked several
times during one call may move its source each time. It counts as stable if it stays within some
calm states and answers the same in all of them. -/

namespace ResourceMetrics.Reading

variable {σ β γ : Type}

theorem bind_ok {x : Reading σ β} {f : β → Reading σ γ} {s s' : σ} {b : β}
    (h : x s = .ok b s') : (x >>= f) s = f b s' := by
  simp only [bind, EStateM.bind, h]

theorem bind_error {x : Reading σ β} {f : β → Reading σ γ} {s s' : σ} {overflow : Overflow}
    (h : x s = .error overflow s') : (x >>= f) s = .error overflow s' := by
  simp only [bind, EStateM.bind, h]

theorem map_ok {f : β → γ} {x : Reading σ β} {s s' : σ} {b : β} (h : x s = .ok b s') :
    (f <$> x) s = .ok (f b) s' := by
  simp only [Functor.map, EStateM.map, h]

theorem map_error {f : β → γ} {x : Reading σ β} {s s' : σ} {overflow : Overflow}
    (h : x s = .error overflow s') : (f <$> x) s = .error overflow s' := by
  simp only [Functor.map, EStateM.map, h]

/-- Where a reading leaves its source, whether it answers or faults. -/
def final (r : Reading σ β) (s : σ) : σ :=
  match r s with
  | .ok _ s' => s'
  | .error _ s' => s'

theorem final_of_ok {r : Reading σ β} {s s' : σ} {b : β} (h : r s = .ok b s') :
    r.final s = s' := by
  simp only [final, h]

@[simp] theorem final_map (f : β → γ) (r : Reading σ β) (s : σ) :
    final (f <$> r) s = r.final s := by
  unfold final
  cases h : r s with
  | ok b s' => rw [map_ok h]
  | error overflow s' => rw [map_error h]

@[simp] theorem final_inSession (r : Reading σ β) (s : Session σ) :
    r.inSession.final s = { s with source := r.final s.source } := by
  unfold final
  cases h : r s.source with
  | ok b source => rw [inSession_ok h]
  | error overflow source => rw [inSession_error h]

/-- From a state in `pre` the reading answers as `post` says. It faults only if `fault` holds. -/
def Triple (fault : Prop) (pre : σ → Prop) (r : Reading σ β) (post : β → σ → Prop) : Prop :=
  ∀ s, pre s → match r s with
    | .ok b s' => post b s'
    | .error _ _ => fault

/-- In the calm states the reading answers `b`, and it does not leave them. -/
def Answers (calm : σ → Prop) (r : Reading σ β) (b : β) : Prop :=
  Triple False calm r fun b' s => b' = b ∧ calm s

variable {fault : Prop} {pre calm : σ → Prop} {x : Reading σ β} {mid : β → σ → Prop}
  {post : γ → σ → Prop} {b : β} {c : γ}

theorem Triple.exists_ok (h : Triple False pre x mid) {s : σ} (hs : pre s) :
    ∃ b s', x s = .ok b s' ∧ mid b s' := by
  have hx := h s hs
  cases hxs : x s with
  | ok b s' =>
      rw [hxs] at hx
      exact ⟨b, s', rfl, hx⟩
  | error overflow s' =>
      rw [hxs] at hx
      exact hx.elim

theorem Triple.pure (h : ∀ s, pre s → post c s) :
    Triple fault pre (pure c : Reading σ γ) post :=
  fun s hs => h s hs

theorem Triple.bind {f : β → Reading σ γ} (hx : Triple fault pre x mid)
    (hf : ∀ b, Triple fault (mid b) (f b) post) : Triple fault pre (x >>= f) post := by
  intro s hs
  have h := hx s hs
  cases hxs : x s with
  | ok b s' =>
      rw [hxs] at h
      rw [bind_ok hxs]
      exact hf b s' h
  | error overflow s' =>
      rw [hxs] at h
      rw [bind_error hxs]
      exact h

theorem Triple.map {f : β → γ} (hx : Triple fault pre x fun b s => post (f b) s) :
    Triple fault pre (f <$> x) post := by
  intro s hs
  have h := hx s hs
  cases hxs : x s with
  | ok b s' =>
      rw [hxs] at h
      rw [map_ok hxs]
      exact h
  | error overflow s' =>
      rw [hxs] at h
      rw [map_error hxs]
      exact h

theorem Triple.inSession (h : Triple fault pre x mid) :
    Triple fault (fun s => pre s.source) x.inSession fun b s => mid b s.source := by
  intro s hs
  have hx := h s.source hs
  cases hxs : x s.source with
  | ok b source =>
      rw [hxs] at hx
      rw [inSession_ok hxs]
      exact hx
  | error overflow source =>
      rw [hxs] at hx
      rw [inSession_error hxs]
      exact hx

theorem Triple.mono {mid' : β → σ → Prop} (hx : Triple fault pre x mid)
    (h : ∀ b s, mid b s → mid' b s) : Triple fault pre x mid' := by
  intro s hs
  have hmid := hx s hs
  cases hxs : x s with
  | ok b s' =>
      rw [hxs] at hmid
      exact h b s' hmid
  | error overflow s' =>
      rw [hxs] at hmid
      exact hmid

/-- Whatever state its source is in, the reading answers something in `P`. It faults only if
`fault` holds. -/
def Gives (fault : Prop) (r : Reading σ β) (P : β → Prop) : Prop :=
  Triple fault (fun _ => True) r fun b _ => P b

variable {P : β → Prop} {Q : γ → Prop}

theorem Gives.pure (h : Q c) : Gives fault (pure c : Reading σ γ) Q :=
  Triple.pure fun _ _ => h

theorem Gives.bind {f : β → Reading σ γ} (hx : Gives fault x P)
    (hf : ∀ b, P b → Gives fault (f b) Q) : Gives fault (x >>= f) Q :=
  Triple.bind hx fun b s hb => hf b hb s trivial

theorem Gives.map {f : β → γ} (hx : Gives fault x P) (hf : ∀ b, P b → Q (f b)) :
    Gives fault (f <$> x) Q :=
  Triple.map (Triple.mono hx fun b _ hb => hf b hb)

theorem Gives.weaken {fault' : Prop} (hx : Gives fault x P) (h : fault → fault') :
    Gives fault' x P := by
  intro s hs
  have hmid := hx s hs
  cases hxs : x s with
  | ok b s' =>
      rw [hxs] at hmid
      exact hmid
  | error overflow s' =>
      rw [hxs] at hmid
      exact h hmid

theorem Gives.ofExcept {e : Except Overflow β} (hok : ∀ b, e = .ok b → P b)
    (herror : ∀ overflow, e = .error overflow → fault) :
    Gives fault (ofExcept e : Reading σ β) P := by
  intro s _
  cases e with
  | ok b => exact hok b rfl
  | error overflow => exact herror overflow rfl

theorem Gives.inSession (hx : Gives fault x P) : Gives fault x.inSession P :=
  fun s _ => Triple.inSession hx s trivial

theorem Answers.pure (b : β) : Answers calm (pure b : Reading σ β) b :=
  Triple.pure fun _ hs => ⟨rfl, hs⟩

/-- A stable reading is passed with its answer, in a calm state. -/
theorem Answers.bind_triple {f : β → Reading σ γ} (hx : Answers calm x b)
    (hf : Triple False calm (f b) post) : Triple False calm (x >>= f) post := by
  apply Triple.bind hx
  rintro b' s ⟨rfl, hs⟩
  exact hf s hs

theorem Answers.bind {f : β → Reading σ γ} (hx : Answers calm x b) (hf : Answers calm (f b) c) :
    Answers calm (x >>= f) c :=
  hx.bind_triple hf

/-- The sessions with some history over calm sources. -/
def During (calm : σ → Prop) (history : LoadHistory) (s : Session σ) : Prop :=
  s.history = history ∧ calm s.source

theorem Answers.inSession (h : Answers calm x b) (history : LoadHistory) :
    Answers (During calm history) x.inSession b := by
  rintro s ⟨hhistory, hs⟩
  obtain ⟨b', source, hx, rfl, hsource⟩ := h.exists_ok hs
  rw [inSession_ok hx]
  exact ⟨rfl, hhistory, hsource⟩

end ResourceMetrics.Reading

namespace ResourceMetrics

/-- A source and a report of it correspond if both are missing, or both there and corresponding. -/
theorem option_rel_cases {β γ : Type} {R : β → γ → Prop} {b : Option β} {c : Option γ}
    (h : Option.Rel R b c) :
    (b = none ∧ c = none) ∨ ∃ b' c', b = some b' ∧ c = some c' ∧ R b' c' := by
  cases h with
  | some hbc => exact Or.inr ⟨_, _, rfl, rfl, hbc⟩
  | none => exact Or.inl ⟨rfl, rfl⟩

end ResourceMetrics
