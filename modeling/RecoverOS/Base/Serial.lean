import Mathlib.Logic.Function.Basic
import RecoverOS.Base.Run

set_option autoImplicit false

/-! # Jobs one at a time

Threads share a state and each of them has one of its own. A job is a list of actions on the two, and between
two actions of a thread the others may run. If a job begins only while none is under way, the shared state is
the one that the jobs leave when each of them is done at once. -/

namespace RecoverOS

namespace Serial

variable {T σ ℓ J : Type}

/-- What a thread does to the shared state and its own, with nobody in between. -/
abbrev Action (σ ℓ : Type) := σ × ℓ → σ × ℓ

/-- Actions one after the other. -/
def perform (acts : List (Action σ ℓ)) (x : σ × ℓ) : σ × ℓ := acts.foldl (fun x a => a x) x

/-- Jobs one after the other. -/
def effects (effect : J → σ → σ) (jobs : List J) (s : σ) : σ := jobs.foldl (fun s j => effect j s) s

/-- The actions of a job do what the job is for, whatever the state of the thread. -/
def Implements (body : J → List (Action σ ℓ)) (effect : J → σ → σ) : Prop :=
  ∀ j s l, (perform (body j) (s, l)).1 = effect j s

/-- The job of a thread with the actions that are left of it, and the jobs that were done. -/
structure State (T σ ℓ J : Type) where
  shared : σ
  own : T → ℓ
  inside : T → Option (J × List (Action σ ℓ))
  done : List J

namespace State

/-- Nobody is in a job. -/
def Quiet (s : State T σ ℓ J) : Prop := ∀ t, s.inside t = none

end State

variable [DecidableEq T]

/-- One step of a thread. -/
inductive Step (body : J → List (Action σ ℓ)) (s : State T σ ℓ J) (t : T) : State T σ ℓ J → Prop where
  | enter {j : J} (h : s.Quiet) :
      Step body s t { s with inside := Function.update s.inside t (some (j, body j)) }
  | act {j : J} {a : Action σ ℓ} {acts : List (Action σ ℓ)} (h : s.inside t = some (j, a :: acts)) :
      Step body s t
        { s with
          shared := (a (s.shared, s.own t)).1
          own := Function.update s.own t (a (s.shared, s.own t)).2
          inside := Function.update s.inside t (some (j, acts)) }
  | leave {j : J} (h : s.inside t = some (j, [])) :
      Step body s t { s with inside := Function.update s.inside t none, done := s.done ++ [j] }

section Runs

variable {body : J → List (Action σ ℓ)} {effect : J → σ → σ} {s s' : State T σ ℓ J} {x : σ} {t : T}
  {ts : List T}

omit [DecidableEq T] in
@[simp] theorem perform_nil (y : σ × ℓ) : perform [] y = y := rfl

omit [DecidableEq T] in
@[simp] theorem perform_cons (a : Action σ ℓ) (acts : List (Action σ ℓ)) (y : σ × ℓ) :
    perform (a :: acts) y = perform acts (a y) := rfl

omit [DecidableEq T] in
theorem perform_append (acts acts' : List (Action σ ℓ)) (y : σ × ℓ) :
    perform (acts ++ acts') y = perform acts' (perform acts y) := List.foldl_append

omit [DecidableEq T] in
@[simp] theorem effects_nil (y : σ) : effects effect [] y = y := rfl

omit [DecidableEq T] in
theorem effects_append (jobs : List J) (j : J) (y : σ) :
    effects effect (jobs ++ [j]) y = effect j (effects effect jobs y) := List.foldl_append

omit [DecidableEq T] in
/-- Parts that implement what they are for make up a whole that does. -/
theorem Implements.flatMap {K : Type} (h : Implements body effect) (parts : K → List J) :
    Implements (fun k => (parts k).flatMap body) (fun k s => effects effect (parts k) s) := by
  intro k s l
  show (perform ((parts k).flatMap body) (s, l)).1 = effects effect (parts k) s
  generalize parts k = js
  induction js generalizing s l with
  | nil => rfl
  | cons j js ih =>
      rw [List.flatMap_cons, perform_append]
      have hj := h j s l
      rw [show perform (body j) (s, l) = (effect j s, (perform (body j) (s, l)).2) from Prod.ext hj rfl]
      exact ih _ _

/-- The shared state is that of the jobs done, with the first actions of the one that is under way. -/
def Between (body : J → List (Action σ ℓ)) (effect : J → σ → σ) (x : σ) (s : State T σ ℓ J) : Prop :=
  s.Quiet ∧ s.shared = effects effect s.done x ∨
    ∃ t j acts before l, s.inside t = some (j, acts) ∧ (∀ u, u ≠ t → s.inside u = none) ∧
      before ++ acts = body j ∧ (s.shared, s.own t) = perform before (effects effect s.done x, l)

theorem Between.step (h : Between body effect x s) (himpl : Implements body effect) (hstep : Step body s t s') :
    Between body effect x s' := by
  cases hstep with
  | @enter j hquiet =>
      obtain ⟨-, hshared⟩ | ⟨u, j', acts, before, l, hu, -⟩ := h
      · refine .inr ⟨t, j, body j, [], s.own t, Function.update_self .., fun u hu => ?_, rfl, ?_⟩
        · exact (Function.update_of_ne hu _ _).trans (hquiet u)
        · rw [perform_nil, ← hshared]
      · rw [hquiet u] at hu
        cases hu
  | @act j a acts hin =>
      obtain ⟨hquiet, -⟩ | ⟨u, j', acts', before, l, hu, hothers, hbody, hboth⟩ := h
      · rw [hquiet t] at hin
        cases hin
      · have htu : t = u := by
          by_contra hne
          rw [hothers t hne] at hin
          cases hin
        subst htu
        rw [hin] at hu
        cases hu
        refine .inr ⟨t, j, acts, before ++ [a], l, Function.update_self .., fun u hu => ?_, ?_, ?_⟩
        · exact (Function.update_of_ne hu _ _).trans (hothers u hu)
        · rw [List.append_assoc, List.singleton_append, hbody]
        · rw [perform_append, ← hboth]
          exact Prod.ext rfl (Function.update_self ..)
  | @leave j hin =>
      obtain ⟨hquiet, -⟩ | ⟨u, j', acts', before, l, hu, hothers, hbody, hboth⟩ := h
      · rw [hquiet t] at hin
        cases hin
      · have htu : t = u := by
          by_contra hne
          rw [hothers t hne] at hin
          cases hin
        subst htu
        rw [hin] at hu
        cases hu
        rw [List.append_nil] at hbody
        refine .inl ⟨fun u => ?_, ?_⟩
        · by_cases hu : u = t
          · rw [hu]
            exact Function.update_self ..
          · exact (Function.update_of_ne hu _ _).trans (hothers u hu)
        · have hshared := congrArg Prod.fst hboth
          rw [hbody, himpl] at hshared
          rw [effects_append]
          exact hshared

/-- In every run, whatever the order of the threads' actions. -/
theorem Between.run (himpl : Implements body effect) (hquiet : s.Quiet) (hdone : s.done = [])
    (hrun : Run (Step body) s ts s') : Between body effect s.shared s' := by
  refine hrun.invariant (fun s t s' h hstep => h.step himpl hstep) (.inl ⟨hquiet, ?_⟩)
  rw [hdone]
  rfl

end Runs

end Serial

end RecoverOS
