import Mathlib.Data.List.Basic

/-!
# Labelled runs

A run of a labelled relation, and the rule every invariant of this development
goes through (`Run.invariant`).  A run of a step function is a fold (`Run.of_foldlM`).
-/

universe u v w

/-- `Run R s es s'`: the steps `es` of `R` lead from `s` to `s'`. -/
inductive Run {σ : Type u} {ε : Type v} (R : σ → ε → σ → Prop) : σ → List ε → σ → Prop
  | nil (s : σ) : Run R s [] s
  | cons {s s₁ s' : σ} {e : ε} {es : List ε} : R s e s₁ → Run R s₁ es s' → Run R s (e :: es) s'

namespace Run

variable {σ : Type u} {ε : Type v} {R : σ → ε → σ → Prop}

/-- **A property each step keeps holds at the end of every run.** -/
theorem invariant {I : σ → Prop} (hstep : ∀ {s e s'}, I s → R s e s' → I s') {s s' : σ}
    {es : List ε} (hrun : Run R s es s') (h : I s) : I s' := by
  induction hrun with
  | nil s => exact h
  | cons hs _ ih => exact ih (hstep h hs)

theorem mono {R' : σ → ε → σ → Prop} (hR : ∀ {s e s'}, R s e s' → R' s e s') {s s' : σ}
    {es : List ε} (h : Run R s es s') : Run R' s es s' := by
  induction h with
  | nil s => exact .nil s
  | cons hs _ ih => exact .cons (hR hs) ih

/-- **A step that is simulated under an invariant is simulated along every run.** -/
theorem simulation {τ : Type w} {R' : τ → ε → τ → Prop} {I : σ → Prop} {f : σ → τ}
    (hstep : ∀ {s e s'}, I s → R s e s' → I s' ∧ R' (f s) e (f s')) {s s' : σ} {es : List ε}
    (hrun : Run R s es s') (h : I s) : I s' ∧ Run R' (f s) es (f s') := by
  induction hrun with
  | nil s => exact ⟨h, .nil _⟩
  | cons hs _ ih =>
    obtain ⟨h1, hs'⟩ := hstep h hs
    obtain ⟨h', hrun'⟩ := ih h1
    exact ⟨h', .cons hs' hrun'⟩

theorem append {s s₁ s' : σ} {es es' : List ε} (h : Run R s es s₁) (h' : Run R s₁ es' s') :
    Run R s (es ++ es') s' := by
  induction h with
  | nil s => exact h'
  | cons hs _ ih => exact .cons hs (ih h')

/-- **What a run brings about is brought about by one of its steps.** -/
theorem exists_step {P : σ → Prop} {s s' : σ} {es : List ε} (hrun : Run R s es s') (h : ¬ P s)
    (h' : P s') : ∃ es₁ e es₂ s₁ s₂, es = es₁ ++ e :: es₂ ∧ Run R s es₁ s₁ ∧ R s₁ e s₂ ∧
      Run R s₂ es₂ s' ∧ ¬ P s₁ ∧ P s₂ := by
  induction hrun with
  | nil s => exact absurd h' h
  | @cons s s₁ s' e es hs hrest ih =>
    by_cases h1 : P s₁
    · exact ⟨[], e, es, s, s₁, rfl, .nil s, hs, hrest, h, h1⟩
    · obtain ⟨es₁, e', es₂, t, t', rfl, hrun₁, ht, hrun₂, hno, hyes⟩ := ih h1 h'
      exact ⟨e :: es₁, e', es₂, t, t', rfl, .cons hs hrun₁, ht, hrun₂, hno, hyes⟩

/-- **A measure that a step decreases is brought down to zero** by repeating that step. -/
theorem exists_of_measure {I : σ → Prop} {e : ε} (μ : σ → Nat)
    (hstep : ∀ s, I s → μ s ≠ 0 → ∃ s', R s e s' ∧ I s' ∧ μ s' < μ s) (s : σ) (h : I s) :
    ∃ n s', Run R s (List.replicate n e) s' ∧ I s' ∧ μ s' = 0 := by
  induction hμ : μ s using Nat.strongRecOn generalizing s with
  | ind m ih =>
    by_cases hz : μ s = 0
    · exact ⟨0, s, .nil s, h, hz⟩
    · obtain ⟨s₁, hs, h1, hlt⟩ := hstep s h hz
      obtain ⟨n, s', hrun, h', hz'⟩ := ih (μ s₁) (hμ ▸ hlt) s₁ h1 rfl
      exact ⟨n + 1, s', .cons hs hrun, h', hz'⟩

/-- A run of a step function is computed. -/
theorem of_foldlM {step : σ → ε → Option σ} : ∀ {es : List ε} {s s' : σ},
    es.foldlM step s = some s' → Run (fun s e s' => step s e = some s') s es s' := by
  intro es
  induction es with
  | nil => intro s s' h; cases h; exact .nil s
  | cons e es ih =>
    intro s s' h
    rw [List.foldlM_cons] at h
    obtain ⟨s₁, h1, h2⟩ := Option.bind_eq_some_iff.mp h
    exact .cons h1 (ih h2)

/-- A step function that refuses the steps outside a condition. -/
def guarded (C : σ → ε → Prop) [∀ s e, Decidable (C s e)] (step : σ → ε → Option σ) (s : σ)
    (e : ε) : Option σ :=
  if C s e then step s e else none

/-- A run whose steps all meet a condition is computed by the guarded step. -/
theorem of_guarded {step : σ → ε → Option σ} {C : σ → ε → Prop} [∀ s e, Decidable (C s e)]
    {es : List ε} {s s' : σ} (h : es.foldlM (guarded C step) s = some s') :
    Run (fun s e s' => C s e ∧ step s e = some s') s es s' :=
  (of_foldlM h).mono fun hs => Option.ite_none_right_eq_some.mp hs

/-! ### Runs of a total step function -/

variable (step : σ → ε → σ)

/-- `P` holds at the start and after every step. -/
def EveryState (P : σ → Prop) : σ → List ε → Prop
  | s, [] => P s
  | s, e :: es => P s ∧ EveryState P (step s e) es

/-- Every step is taken in a state in which it meets `C`. -/
def EveryStep (C : σ → ε → Prop) : σ → List ε → Prop
  | _, [] => True
  | s, e :: es => C s e ∧ EveryStep C (step s e) es

variable {step}

theorem EveryState.head {P : σ → Prop} {s : σ} {es : List ε} (h : EveryState step P s es) :
    P s := by
  cases es with
  | nil => exact h
  | cons e es => exact h.1

/-- **An invariant that the steps of a run keep** gives its consequence in every state. -/
theorem EveryStep.everyState {I P : σ → Prop} {C : σ → ε → Prop}
    (hstep : ∀ {s e}, I s → C s e → I (step s e)) (hP : ∀ {s}, I s → P s) :
    ∀ {es : List ε} {s : σ}, EveryStep step C s es → I s → EveryState step P s es := by
  intro es
  induction es with
  | nil =>
    intro s _ hs
    exact hP hs
  | cons e es ih =>
    rintro s ⟨hc, h⟩ hs
    exact ⟨hP hs, ih h (hstep hs hc)⟩

theorem EveryState.last {P : σ → Prop} : ∀ {es : List ε} {s : σ}, EveryState step P s es →
    P (es.foldl step s) := by
  intro es
  induction es with
  | nil => intro s h; exact h
  | cons e es ih => intro s h; exact ih h.2

/-- **A property is kept along a run exactly if each step keeps it**, under an invariant that
every step keeps. -/
theorem everyState_iff_of_invariant {I P : σ → Prop} {C : σ → ε → Prop}
    (hI : ∀ s e, I s → I (step s e)) (hstep : ∀ s e, I s → P s → (P (step s e) ↔ C s e))
    (es : List ε) : ∀ s, I s → P s → (EveryState step P s es ↔ EveryStep step C s es) := by
  induction es with
  | nil =>
    intro s _ hs
    exact iff_of_true hs trivial
  | cons e es ih =>
    intro s hi hs
    constructor
    · rintro ⟨-, h⟩
      exact ⟨(hstep s e hi hs).mp h.head, (ih _ (hI s e hi) h.head).mp h⟩
    · rintro ⟨hc, h⟩
      exact ⟨hs, (ih _ (hI s e hi) ((hstep s e hi hs).mpr hc)).mpr h⟩

theorem everyState_iff {P : σ → Prop} {C : σ → ε → Prop}
    (hstep : ∀ s e, P s → (P (step s e) ↔ C s e)) (es : List ε) (s : σ) (hs : P s) :
    EveryState step P s es ↔ EveryStep step C s es :=
  everyState_iff_of_invariant (I := fun _ => True) (fun _ _ h => h) (fun s e _ => hstep s e) es s
    trivial hs

end Run
