import AffineKernel.Proofs.Build.Outcome

/-!
# Two runs side by side

Two actions that do nearly the same, each from a state of its own, are compared
step by step. `Both` is about the case that both succeed: only then is anything
said about their results and about the states that they end in. So a step that
one of them may fail in needs no argument, and there are equations for the steps
that both take (`both_bind`) or that only one of them takes (`Both.left`,
`Both.right`).
-/

set_option autoImplicit false

namespace AffineKernel

variable {ε σ α β γ δ : Type}

/-- If an action from a state and another action from another state both succeed, something holds of
the results and of the states afterwards. -/
def Both (first : EStateM ε σ α) (second : EStateM ε σ β) (state other : σ)
    (post : α → β → σ → σ → Prop) : Prop :=
  ∀ a b after final, first state = .ok a after → second other = .ok b final → post a b after final

section Steps

variable {state other : σ} {post : α → β → σ → σ → Prop}

@[simp]
theorem both_pure (a : α) (b : β) :
    Both (pure a : EStateM ε σ α) (pure b) state other post ↔ post a b state other := by
  constructor
  · intro both
    exact both a b state other rfl rfl
  · intro holds a' b' after final first second
    cases first
    cases second
    exact holds

@[simp]
theorem both_bind (first : EStateM ε σ γ) (second : EStateM ε σ δ) (next : γ → EStateM ε σ α)
    (further : δ → EStateM ε σ β) :
    Both (first >>= next) (second >>= further) state other post ↔
      Both first second state other fun c d middle between =>
        Both (next c) (further d) middle between post := by
  constructor
  · intro both c d middle between begun started a b after final ended finished
    refine both a b after final ?_ ?_
    · simp only [bind, EStateM.bind, begun, ended]
    · simp only [bind, EStateM.bind, started, finished]
  · intro both a b after final passed done
    obtain ⟨c, middle, begun, ended⟩ := EStateM.bind_eq_ok passed
    obtain ⟨d, between, started, finished⟩ := EStateM.bind_eq_ok done
    exact both c d middle between begun started a b after final ended finished

@[simp]
theorem both_map (first : EStateM ε σ γ) (second : EStateM ε σ δ) (f : γ → α) (g : δ → β) :
    Both (f <$> first) (g <$> second) state other post ↔
      Both first second state other fun c d => post (f c) (g d) := by
  rw [← bind_pure_comp, ← bind_pure_comp, both_bind]
  simp only [both_pure]

@[simp]
theorem both_get {post : σ → σ → σ → σ → Prop} :
    Both (get : EStateM ε σ σ) get state other post ↔ post state other state other :=
  @both_pure ε σ σ σ state other post state other

@[simp]
theorem both_set {post : PUnit → PUnit → σ → σ → Prop} (new fresh : σ) :
    Both (set new : EStateM ε σ PUnit) (set fresh) state other post ↔ post ⟨⟩ ⟨⟩ new fresh := by
  constructor
  · intro both
    exact both ⟨⟩ ⟨⟩ new fresh rfl rfl
  · intro holds _ _ after final first second
    cases first
    cases second
    exact holds

@[simp]
theorem both_modify {post : PUnit → PUnit → σ → σ → Prop} (change alter : σ → σ) :
    Both (modify change : EStateM ε σ PUnit) (modify alter) state other post ↔
      post ⟨⟩ ⟨⟩ (change state) (alter other) := by
  constructor
  · intro both
    exact both ⟨⟩ ⟨⟩ _ _ rfl rfl
  · intro holds _ _ after final first second
    cases first
    cases second
    exact holds

end Steps

namespace Both

variable {first : EStateM ε σ α} {second : EStateM ε σ β} {state other : σ}
  {post weaker : α → β → σ → σ → Prop}

theorem mono (both : Both first second state other post)
    (implied : ∀ a b after final, post a b after final → weaker a b after final) :
    Both first second state other weaker :=
  fun a b after final ended finished => implied a b after final
    (both a b after final ended finished)

/-- A failure of the first action leaves nothing to compare. -/
theorem throw_left (error : ε) (second : EStateM ε σ β) :
    Both (throw error : EStateM ε σ α) second state other post := by
  intro a b after final failed
  cases failed

theorem throw_right (first : EStateM ε σ α) (error : ε) :
    Both first (throw error : EStateM ε σ β) state other post := by
  intro a b after final _ failed
  cases failed

theorem throw_bind_left (error : ε) (next : γ → EStateM ε σ α) (second : EStateM ε σ β) :
    Both (throw error >>= next) second state other post := throw_left error second

/-- A step that only the first action takes. -/
theorem left {step : EStateM ε σ γ} {next : γ → EStateM ε σ α}
    (later : ∀ c middle, step state = .ok c middle → Both (next c) second middle other post) :
    Both (step >>= next) second state other post := by
  intro a b after final passed finished
  obtain ⟨c, middle, begun, ended⟩ := EStateM.bind_eq_ok passed
  exact later c middle begun a b after final ended finished

/-- A step that only the second action takes. -/
theorem right {step : EStateM ε σ γ} {next : γ → EStateM ε σ β}
    (later : ∀ c middle, step other = .ok c middle → Both first (next c) state middle post) :
    Both first (step >>= next) state other post := by
  intro a b after final ended passed
  obtain ⟨c, middle, begun, finished⟩ := EStateM.bind_eq_ok passed
  exact later c middle begun a b after final ended finished

end Both

end AffineKernel
