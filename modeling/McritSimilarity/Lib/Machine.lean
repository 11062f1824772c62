import Mathlib.Tactic.Common

/-!
# Runs of labelled transition systems

`Steps step s tr t` is a run from `s` to `t` with the labels `tr`.  `Steps.invariant` is the
induction over runs; `restrict step cond` are the steps that meet a condition on the state before
the step and its label, so a run of `restrict step cond` is a run whose steps all meet `cond`.
-/

set_option autoImplicit false

variable {σ ℓ : Type}

/-- A run with the labels of its steps, first step first. -/
inductive Steps (step : σ → ℓ → σ → Prop) : σ → List ℓ → σ → Prop where
  | refl (s : σ) : Steps step s [] s
  | cons {s t u : σ} {l : ℓ} {tr : List ℓ} (h : step s l t) (hs : Steps step t tr u) :
      Steps step s (l :: tr) u

/-- The steps taken under a condition on the state before the step and its label. -/
def restrict (step : σ → ℓ → σ → Prop) (cond : σ → ℓ → Prop) : σ → ℓ → σ → Prop :=
  fun s l t => cond s l ∧ step s l t

namespace Steps

variable {step : σ → ℓ → σ → Prop} {s t u : σ} {l : ℓ} {tr tr' : List ℓ}

theorem single (h : step s l t) : Steps step s [l] t := .cons h (.refl t)

theorem append (h₁ : Steps step s tr t) (h₂ : Steps step t tr' u) :
    Steps step s (tr ++ tr') u := by
  induction h₁ with
  | refl => exact h₂
  | cons h _ ih => exact .cons h (ih h₂)

/-- What every step preserves, a run preserves. -/
theorem invariant {P : σ → Prop} (hstep : ∀ s l t, P s → step s l t → P t)
    (h : Steps step s tr t) (hs : P s) : P t := by
  induction h with
  | refl => exact hs
  | cons h _ ih => exact ih (hstep _ _ _ hs h)

/-- What every step with a label of the run preserves, the run preserves. -/
theorem invariant_labels {P : σ → Prop} {Q : ℓ → Prop}
    (hstep : ∀ s l t, P s → Q l → step s l t → P t) (h : Steps step s tr t) (htr : ∀ l ∈ tr, Q l)
    (hs : P s) : P t := by
  induction h with
  | refl => exact hs
  | cons h _ ih =>
    rw [List.forall_mem_cons] at htr
    exact ih htr.2 (hstep _ _ _ hs htr.1 h)

/-- What every step preserves together with the labels so far, a run preserves. -/
theorem invariant_trace {P : List ℓ → σ → Prop} (hstep : ∀ tr s l t, P tr s → step s l t → P (tr ++ [l]) t)
    (h : Steps step s tr t) (hs : P [] s) : P tr t := by
  suffices ∀ tr₀, P tr₀ s → P (tr₀ ++ tr) t from this [] hs
  clear hs
  induction h with
  | refl =>
    intro tr₀ hs
    rwa [List.append_nil]
  | @cons s s' t l tr h _ ih =>
    intro tr₀ hs
    have hafter := ih (tr₀ ++ [l]) (hstep tr₀ s l s' hs h)
    rwa [List.append_assoc] at hafter

/-- A run goes through each of its labels. -/
theorem exists_of_mem (h : Steps step s tr t) (hl : l ∈ tr) : ∃ tr₁ tr₂ s₁ s₂, tr = tr₁ ++ l :: tr₂ ∧
    Steps step s tr₁ s₁ ∧ step s₁ l s₂ ∧ Steps step s₂ tr₂ t := by
  induction h with
  | refl => cases hl
  | @cons s s' _ l' tr h hs ih =>
    rcases List.mem_cons.1 hl with rfl | hl
    · exact ⟨[], tr, s, s', rfl, .refl s, h, hs⟩
    · obtain ⟨tr₁, tr₂, s₁, s₂, rfl, h₁, h₂, h₃⟩ := ih hl
      exact ⟨l' :: tr₁, tr₂, s₁, s₂, rfl, .cons h h₁, h₂, h₃⟩

/-- Where every step is matched by steps that show the same, a run is matched by a run that shows the same. -/
theorem refines {σ' ℓ' ω : Type} {step' : σ' → ℓ' → σ' → Prop} {shows : ℓ → Option ω} {shows' : ℓ' → Option ω}
    {R : σ → σ' → Prop} (h : Steps step s tr t)
    (hstep : ∀ s s' l t, R s s' → step s l t →
      ∃ tr' t', Steps step' s' tr' t' ∧ tr'.filterMap shows' = (shows l).toList ∧ R t t') {s' : σ'} (hs : R s s') :
    ∃ tr' t', Steps step' s' tr' t' ∧ tr'.filterMap shows' = tr.filterMap shows ∧ R t t' := by
  induction h generalizing s' with
  | refl => exact ⟨[], s', .refl s', rfl, hs⟩
  | @cons s t u l tr h _ ih =>
    obtain ⟨tr₁, t', h₁, hshown, ht⟩ := hstep _ _ _ _ hs h
    obtain ⟨tr₂, u', h₂, hrest, hu⟩ := ih ht
    refine ⟨tr₁ ++ tr₂, u', h₁.append h₂, ?_, hu⟩
    rw [List.filterMap_append, hshown, hrest, List.filterMap_cons]
    cases shows l <;> rfl

theorem mono {step' : σ → ℓ → σ → Prop} (hstep : ∀ s l t, step s l t → step' s l t)
    (h : Steps step s tr t) : Steps step' s tr t := by
  induction h with
  | refl => exact .refl _
  | cons h _ ih => exact .cons (hstep _ _ _ h) ih

end Steps

/-- The states that runs from the initial states reach. -/
def Reachable (init : σ → Prop) (step : σ → ℓ → σ → Prop) (t : σ) : Prop :=
  ∃ s tr, init s ∧ Steps step s tr t

theorem Reachable.invariant {init : σ → Prop} {step : σ → ℓ → σ → Prop} {P : σ → Prop}
    (hinit : ∀ s, init s → P s) (hstep : ∀ s l t, P s → step s l t → P t) {t : σ}
    (h : Reachable init step t) : P t := by
  obtain ⟨s, tr, hs, hrun⟩ := h
  exact hrun.invariant hstep (hinit s hs)
