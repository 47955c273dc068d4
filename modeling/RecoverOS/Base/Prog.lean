import Mathlib.Order.Defs.Unbundled
import Mathlib.Tactic.TypeStar

set_option autoImplicit false

/-! # Stateful computations that may stop

`Prog σ α` is a computation over a state `σ` that either returns a value together with the state it
leaves, or stops with a `Fault`. A fault is final: nothing that follows in the same computation is
run, and no later step of a system starts from a faulted one.

Two ways of reasoning are provided. *Inversion* takes an equation `m s = .ok (a, s')` apart with the
`*_eq_ok` lemmas (all `simp` lemmas), and is what step and frame lemmas use. *Execution* rewrites a
computation forward with `Prog.bind_of_ok`, and is what totality lemmas use. -/

namespace RecoverOS

/-- Why a computation stops. -/
inductive Fault where
  /-- A failed assertion, or an explicit panic. -/
  | panic
  /-- An access whose outcome the source language leaves open: an index past an array, a copy past a
      buffer, the use of freed memory. -/
  | undefined
  deriving DecidableEq, Repr

/-- A computation over the state `σ` that returns an `α` or stops with a fault. -/
abbrev Prog (σ α : Type) : Type := σ → Except Fault (α × σ)

namespace Prog

variable {σ τ α β γ : Type}

/-- Return a value and leave the state alone. -/
def ret (a : α) : Prog σ α := fun s => .ok (a, s)

/-- Run `m`, then `f` on its value, from the state `m` leaves. -/
def andThen (m : Prog σ α) (f : α → Prog σ β) : Prog σ β := fun s =>
  match m s with
  | .ok (a, s') => f a s'
  | .error e => .error e

instance : Monad (Prog σ) where
  pure := ret
  bind := andThen

/-- Stop. -/
def fault (e : Fault) : Prog σ α := fun _ => .error e

/-- The current state. -/
def get : Prog σ σ := fun s => .ok (s, s)

/-- A value read off the current state. -/
def gets (f : σ → α) : Prog σ α := fun s => .ok (f s, s)

/-- Replace the state by its image under `f`. -/
def modify (f : σ → σ) : Prog σ Unit := fun s => .ok ((), f s)

/-- Panic unless `c` holds. -/
def assert (c : Prop) [Decidable c] : Prog σ Unit := if c then ret () else fault .panic

/-- Undefined behaviour unless `c` holds. -/
def require (c : Prop) [Decidable c] : Prog σ Unit := if c then ret () else fault .undefined

/-- The value of an option whose absence is undefined behaviour. -/
def ofOption (o : Option α) : Prog σ α :=
  match o with
  | some a => ret a
  | none => fault .undefined

/-- Run a computation on a component of a larger state. -/
def zoom (view : τ → σ) (put : σ → τ → τ) (m : Prog σ α) : Prog τ α := fun t =>
  match m (view t) with
  | .ok (a, s') => .ok (a, put s' t)
  | .error e => .error e

/-- Run a computation on a local variable. -/
def onLocal (t : τ) (m : Prog τ α) : Prog σ (α × τ) := fun s =>
  match m t with
  | .ok r => .ok (r, s)
  | .error e => .error e

/-! ## Inversion -/

@[simp] theorem pure_eq_ok {a b : α} {s s' : σ} :
    (pure a : Prog σ α) s = .ok (b, s') ↔ a = b ∧ s = s' := by
  show Except.ok (a, s) = Except.ok (b, s') ↔ _
  simp

@[simp] theorem bind_eq_ok {m : Prog σ α} {f : α → Prog σ β} {b : β} {s s' : σ} :
    (m >>= f) s = .ok (b, s') ↔ ∃ a t, m s = .ok (a, t) ∧ f a t = .ok (b, s') := by
  show andThen m f s = _ ↔ _
  unfold andThen
  cases hm : m s with
  | error e => simp
  | ok r =>
      obtain ⟨a, t⟩ := r
      constructor
      · intro h
        exact ⟨a, t, rfl, h⟩
      · rintro ⟨a', t', heq, h⟩
        cases heq
        exact h

@[simp] theorem fault_eq_ok {e : Fault} {b : β} {s s' : σ} :
    (fault e : Prog σ β) s = .ok (b, s') ↔ False := by
  simp [fault]

@[simp] theorem get_eq_ok {t s s' : σ} : (get : Prog σ σ) s = .ok (t, s') ↔ s = t ∧ s = s' := by
  simp [get]

@[simp] theorem gets_eq_ok {f : σ → α} {a : α} {s s' : σ} :
    gets f s = .ok (a, s') ↔ f s = a ∧ s = s' := by
  simp [gets]

@[simp] theorem modify_eq_ok {f : σ → σ} {u : Unit} {s s' : σ} :
    modify f s = .ok (u, s') ↔ s' = f s := by
  simp [modify, eq_comm]

@[simp] theorem assert_eq_ok {c : Prop} [Decidable c] {u : Unit} {s s' : σ} :
    assert c s = .ok (u, s') ↔ c ∧ s = s' := by
  unfold assert
  split
  · next h => simp [ret, h]
  · next h => simp [h]

@[simp] theorem require_eq_ok {c : Prop} [Decidable c] {u : Unit} {s s' : σ} :
    require c s = .ok (u, s') ↔ c ∧ s = s' := by
  unfold require
  split
  · next h => simp [ret, h]
  · next h => simp [h]

@[simp] theorem ofOption_eq_ok {o : Option α} {a : α} {s s' : σ} :
    ofOption o s = .ok (a, s') ↔ o = some a ∧ s = s' := by
  cases o <;> simp [ofOption, ret]

theorem zoom_eq_ok {view : τ → σ} {put : σ → τ → τ} {m : Prog σ α} {a : α} {t t' : τ} :
    zoom view put m t = .ok (a, t') ↔ ∃ s', m (view t) = .ok (a, s') ∧ t' = put s' t := by
  unfold zoom
  cases hm : m (view t) with
  | error e => simp
  | ok r =>
      obtain ⟨b, s'⟩ := r
      constructor
      · intro h
        cases h
        exact ⟨s', rfl, rfl⟩
      · rintro ⟨s'', heq, rfl⟩
        cases heq
        rfl

@[simp] theorem onLocal_eq_ok {t : τ} {m : Prog τ α} {r : α × τ} {s s' : σ} :
    onLocal t m s = .ok (r, s') ↔ m t = .ok r ∧ s = s' := by
  unfold onLocal
  cases hm : m t <;> simp

/-! ## Execution -/

theorem bind_of_ok {m : Prog σ α} {a : α} {s t : σ} (h : m s = .ok (a, t)) (f : α → Prog σ β) :
    (m >>= f) s = f a t := by
  show andThen m f s = _
  unfold andThen
  rw [h]

theorem bind_of_error {m : Prog σ α} {e : Fault} {s : σ} (h : m s = .error e)
    (f : α → Prog σ β) : (m >>= f) s = .error e := by
  show andThen m f s = _
  unfold andThen
  rw [h]

theorem bind_assoc (m : Prog σ α) (f : α → Prog σ β) (g : β → Prog σ γ) (s : σ) :
    (m >>= f >>= g) s = (m >>= fun a => f a >>= g) s := by
  cases h : m s with
  | error e => rw [bind_of_error h, bind_of_error (bind_of_error h f)]
  | ok r =>
      rw [bind_of_ok h]
      show andThen (andThen m f) g s = andThen (f r.1) g r.2
      unfold andThen
      rw [h]

theorem bind_congr {m : Prog σ α} {f g : α → Prog σ β} (h : ∀ a t, f a t = g a t) (s : σ) :
    (m >>= f) s = (m >>= g) s := by
  cases hm : m s with
  | error e => rw [bind_of_error hm, bind_of_error hm]
  | ok r => rw [bind_of_ok hm, bind_of_ok hm, h]

@[simp] theorem run_pure (a : α) (s : σ) : (pure a : Prog σ α) s = .ok (a, s) := rfl

@[simp] theorem run_gets (f : σ → α) (s : σ) : gets f s = .ok (f s, s) := rfl

@[simp] theorem run_modify (f : σ → σ) (s : σ) : modify f s = .ok ((), f s) := rfl

theorem run_assert {c : Prop} [Decidable c] (h : c) (s : σ) : assert c s = .ok ((), s) := by
  simp [h]

theorem run_require {c : Prop} [Decidable c] (h : c) (s : σ) : require c s = .ok ((), s) := by
  simp [h]

@[simp] theorem run_gets_bind (f : σ → α) (k : α → Prog σ β) (s : σ) :
    (gets f >>= k) s = k (f s) s := rfl

@[simp] theorem run_modify_bind (f : σ → σ) (k : Unit → Prog σ β) (s : σ) :
    (modify f >>= k) s = k () (f s) := rfl

@[simp] theorem run_pure_bind (a : α) (k : α → Prog σ β) (s : σ) :
    ((pure a : Prog σ α) >>= k) s = k a s := rfl

theorem run_assert_bind {c : Prop} [Decidable c] (h : c) (k : Unit → Prog σ β) (s : σ) :
    (assert c >>= k) s = k () s :=
  bind_of_ok (run_assert h s) k

theorem run_require_bind {c : Prop} [Decidable c] (h : c) (k : Unit → Prog σ β) (s : σ) :
    (require c >>= k) s = k () s :=
  bind_of_ok (run_require h s) k

theorem run_require_bind_not {c : Prop} [Decidable c] (h : ¬ c) (k : Unit → Prog σ β) (s : σ) :
    (require c >>= k) s = .error .undefined := by
  refine bind_of_error ?_ k
  unfold require
  rw [if_neg h]
  rfl

theorem run_assert_bind_not {c : Prop} [Decidable c] (h : ¬ c) (k : Unit → Prog σ β) (s : σ) :
    (assert c >>= k) s = .error .panic := by
  refine bind_of_error ?_ k
  unfold assert
  rw [if_neg h]
  rfl

/-! ## Computations that do not panic

`m.Safe I Q` says that `m` does not panic from a state with `I`, and that `Q` holds of the value it
returns and the state it leaves. Undefined behaviour is not excluded. -/

/-- From a state with `I` there is no panic, and whatever is returned meets `Q`. -/
def Safe (m : Prog σ α) (I : σ → Prop) (Q : α → σ → Prop) : Prop :=
  ∀ s, I s → m s ≠ .error .panic ∧ ∀ a s', m s = .ok (a, s') → Q a s'

section Safe

variable {m : Prog σ α} {f : α → Prog σ β} {I J : σ → Prop} {Q R : α → σ → Prop} {T : β → σ → Prop}
  {c : Prop} [Decidable c] {a : α}

theorem Safe.of_ok (g : σ → α) (k : σ → σ) (hm : ∀ s, I s → m s = .ok (g s, k s))
    (hQ : ∀ s, I s → Q (g s) (k s)) : m.Safe I Q := by
  intro s hs
  rw [hm s hs]
  refine ⟨nofun, fun a s' h => ?_⟩
  cases h
  exact hQ s hs

theorem Safe.pure (h : ∀ s, I s → Q a s) : (Pure.pure a : Prog σ α).Safe I Q :=
  .of_ok (fun _ => a) id (fun _ _ => rfl) h

theorem Safe.undefined : (fault .undefined : Prog σ α).Safe I Q := fun _ _ => ⟨nofun, nofun⟩

theorem Safe.get : (get : Prog σ σ).Safe I (fun t s => t = s ∧ I s) :=
  .of_ok id id (fun _ _ => rfl) fun _ hs => ⟨rfl, hs⟩

theorem Safe.modify {k : σ → σ} (h : ∀ s, I s → J (k s)) : (modify k).Safe I (fun _ => J) :=
  .of_ok (fun _ => ()) k (fun _ _ => rfl) h

theorem Safe.require : (require c : Prog σ Unit).Safe I (fun _ s => c ∧ I s) := by
  intro s hs
  by_cases hc : c
  · rw [run_require hc]
    exact ⟨nofun, fun _ _ h => by cases h; exact ⟨hc, hs⟩⟩
  · unfold Prog.require
    rw [if_neg hc]
    exact Safe.undefined s hs

theorem Safe.assert (hc : ∀ s, I s → c) : (assert c : Prog σ Unit).Safe I (fun _ s => I s) := by
  intro s hs
  rw [run_assert (hc s hs)]
  exact ⟨nofun, fun _ _ h => by cases h; exact hs⟩

theorem Safe.ofOption {o : Option α} : (ofOption o : Prog σ α).Safe I (fun a s => o = some a ∧ I s) := by
  intro s hs
  cases o with
  | none => exact ⟨nofun, nofun⟩
  | some a => exact ⟨nofun, fun _ _ h => by cases h; exact ⟨rfl, hs⟩⟩

theorem Safe.bind (hm : m.Safe I Q) (hf : ∀ a, (f a).Safe (Q a) T) : (m >>= f).Safe I T := by
  intro s hs
  obtain ⟨hpanic, hok⟩ := hm s hs
  cases h : m s with
  | error e =>
      rw [bind_of_error h]
      rw [h] at hpanic
      exact ⟨fun heq => hpanic (congrArg _ (Except.error.inj heq)), nofun⟩
  | ok r =>
      obtain ⟨a, t⟩ := r
      rw [bind_of_ok h]
      exact hf a t (hok a t h)

theorem Safe.ite {m' : Prog σ α} (hm : c → m.Safe I Q) (hm' : ¬ c → m'.Safe I Q) :
    (if c then m else m').Safe I Q := by
  by_cases hc : c
  · rw [if_pos hc]
    exact hm hc
  · rw [if_neg hc]
    exact hm' hc

theorem Safe.mono (h : m.Safe I Q) (hI : ∀ s, J s → I s) (hQ : ∀ a s, Q a s → R a s) : m.Safe J R :=
  fun s hs => ⟨(h s (hI s hs)).1, fun a s' hr => hQ a s' ((h s (hI s hs)).2 a s' hr)⟩

end Safe

/-! ## Relations between the state before and the state after

`m.Extends R` says that every normal run of `m` goes from a state to one that `R` relates it to. -/

/-- Every normal run of `m` from `s` ends in a state that `R` relates `s` to. -/
def Extends (m : Prog σ α) (R : σ → σ → Prop) : Prop := ∀ s a t, m s = .ok (a, t) → R s t

section Extends

variable {m : Prog σ α} {f : α → Prog σ β} {R S : σ → σ → Prop} {c : Prop} [Decidable c]

theorem Extends.mono (h : m.Extends R) (hR : ∀ s t, R s t → S s t) : m.Extends S :=
  fun s a t hrun => hR s t (h s a t hrun)

theorem Extends.fault (e : Fault) : (fault e : Prog σ α).Extends R := nofun

theorem Extends.modify {k : σ → σ} (h : ∀ s, R s (k s)) : (modify k).Extends R := by
  intro s u t hrun
  rw [modify_eq_ok.1 hrun]
  exact h s

theorem Extends.ite {m' : Prog σ α} (hm : m.Extends R) (hm' : m'.Extends R) :
    (if c then m else m').Extends R := by
  by_cases hc : c
  · rwa [if_pos hc]
  · rwa [if_neg hc]

variable [IsPreorder σ R]

theorem Extends.pure (a : α) : (Pure.pure a : Prog σ α).Extends R := by
  intro s b t hrun
  obtain ⟨-, rfl⟩ := pure_eq_ok.1 hrun
  exact refl_of R s

theorem Extends.get : (get : Prog σ σ).Extends R := by
  intro s b t hrun
  obtain ⟨rfl, rfl⟩ := get_eq_ok.1 hrun
  exact refl_of R _

theorem Extends.gets (g : σ → α) : (gets g).Extends R := by
  intro s b t hrun
  obtain ⟨-, rfl⟩ := gets_eq_ok.1 hrun
  exact refl_of R s

theorem Extends.assert : (assert c : Prog σ Unit).Extends R := by
  intro s b t hrun
  obtain ⟨-, rfl⟩ := assert_eq_ok.1 hrun
  exact refl_of R s

theorem Extends.require : (require c : Prog σ Unit).Extends R := by
  intro s b t hrun
  obtain ⟨-, rfl⟩ := require_eq_ok.1 hrun
  exact refl_of R s

theorem Extends.ofOption (o : Option α) : (ofOption o : Prog σ α).Extends R := by
  intro s b t hrun
  obtain ⟨-, rfl⟩ := ofOption_eq_ok.1 hrun
  exact refl_of R s

theorem Extends.bind (hm : m.Extends R) (hf : ∀ a, (f a).Extends R) : (m >>= f).Extends R := by
  intro s b t hrun
  obtain ⟨a, u, h1, h2⟩ := bind_eq_ok.1 hrun
  exact trans_of R (hm s a u h1) (hf a u b t h2)

end Extends

end Prog

/-- A computation whose value is dropped. -/
theorem drop_eq_ok {σ α : Type} {m : Prog σ α} {s s' : σ} {u : Unit}
    (h : (do let _ ← m; pure () : Prog σ Unit) s = .ok (u, s')) : ∃ a, m s = .ok (a, s') := by
  obtain ⟨a, t, hm, ht⟩ := Prog.bind_eq_ok.1 h
  obtain ⟨-, rfl⟩ := Prog.pure_eq_ok.1 ht
  exact ⟨a, hm⟩

end RecoverOS
