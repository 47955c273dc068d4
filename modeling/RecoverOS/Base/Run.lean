import Mathlib.Data.List.Induction
import Mathlib.Tactic.TypeStar

set_option autoImplicit false

/-! # Runs of a labelled transition system

`Run step s ls t` is a finite run from `s` to `t` whose steps carry the labels `ls`. A condition that
every step of a run has to meet is a restriction of `step`. -/

namespace RecoverOS

variable {σ ℓ : Type*}

/-- A finite run, by its last step. -/
inductive Run (step : σ → ℓ → σ → Prop) (s : σ) : List ℓ → σ → Prop where
  | nil : Run step s [] s
  | snoc {ls : List ℓ} {t u : σ} {l : ℓ} : Run step s ls t → step t l u → Run step s (ls ++ [l]) u

namespace Run

variable {step step' : σ → ℓ → σ → Prop} {s t u : σ} {ls : List ℓ}

/-- What every step preserves holds at the end of a run that starts with it. -/
theorem invariant {I : σ → Prop} (hstep : ∀ s l s', I s → step s l s' → I s')
    (h : Run step s ls t) (hs : I s) : I t := by
  induction h with
  | nil => exact hs
  | snoc _ hlast ih => exact hstep _ _ _ ih hlast

theorem mono (hsub : ∀ s l s', step s l s' → step' s l s') (h : Run step s ls t) :
    Run step' s ls t := by
  induction h with
  | nil => exact .nil
  | snoc _ hlast ih => exact .snoc ih (hsub _ _ _ hlast)

theorem single {l : ℓ} (h : step s l t) : Run step s [l] t := by
  have hrun : Run step s ([] ++ [l]) t := .snoc .nil h
  exact hrun

theorem append {ls' : List ℓ} (h : Run step s ls t) (h' : Run step t ls' u) :
    Run step s (ls ++ ls') u := by
  induction h' with
  | nil => simpa using h
  | snoc _ hlast ih =>
      rw [← List.append_assoc]
      exact .snoc ih hlast

theorem cons {l : ℓ} (h : step s l t) (h' : Run step t ls u) : Run step s (l :: ls) u :=
  (single h).append h'

theorem exists_cons {l : ℓ} (h : step s l t) (h' : ∃ u, Run step t ls u) :
    ∃ u, Run step s (l :: ls) u := by
  obtain ⟨u, h'⟩ := h'
  exact ⟨u, cons h h'⟩

theorem exists_cons_and {l : ℓ} {P : σ → Prop} (h : step s l t) (h' : ∃ u, Run step t ls u ∧ P u) :
    ∃ u, Run step s (l :: ls) u ∧ P u := by
  obtain ⟨u, h', hu⟩ := h'
  exact ⟨u, cons h h', hu⟩

theorem of_append {ls' : List ℓ} (h : Run step s (ls ++ ls') u) :
    ∃ t, Run step s ls t ∧ Run step t ls' u := by
  generalize heq : ls ++ ls' = l at h
  induction h generalizing ls' with
  | nil =>
      obtain ⟨rfl, rfl⟩ := List.append_eq_nil_iff.1 heq
      exact ⟨s, .nil, .nil⟩
  | snoc hrun hlast ih =>
      cases ls' using List.reverseRecOn with
      | nil =>
          rw [List.append_nil] at heq
          exact ⟨_, heq ▸ .snoc hrun hlast, .nil⟩
      | append_singleton ls' l =>
          rw [← List.append_assoc] at heq
          obtain ⟨heq', hl⟩ := List.append_inj' heq rfl
          obtain ⟨t, h1, h2⟩ := ih heq'
          cases hl
          exact ⟨t, h1, .snoc h2 hlast⟩

theorem of_nil (h : Run step s [] t) : s = t := by
  generalize heq : ([] : List ℓ) = ls at h
  cases h with
  | nil => rfl
  | snoc _ _ => simp at heq

theorem of_cons {l : ℓ} (h : Run step s (l :: ls) u) : ∃ t, step s l t ∧ Run step t ls u := by
  have h' : Run step s ([l] ++ ls) u := h
  obtain ⟨t, h1, h2⟩ := h'.of_append
  refine ⟨t, ?_, h2⟩
  generalize heq : [l] = ls1 at h1
  cases h1 with
  | nil => cases heq
  | snoc h0 hlast =>
      obtain ⟨hnil, hl⟩ := List.append_inj' ((List.nil_append _).trans heq) rfl
      cases hl
      subst hnil
      rw [h0.of_nil]
      exact hlast

end Run

end RecoverOS
