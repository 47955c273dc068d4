import Mathlib.Data.List.Count
import Mathlib.Logic.Function.Basic

set_option autoImplicit false

/-! # Counting the references of a table

A table is a function to optional keys; `countTo` counts the indices of a list that lead to a key. -/

namespace RecoverOS

variable {entry : Nat → Option Nat} {fds : List Nat} {fd g : Nat} {v : Option Nat}

/-- The number of descriptors in `fds` whose entry is `g`. -/
def countTo (entry : Nat → Option Nat) (fds : List Nat) (g : Nat) : Nat :=
  fds.countP fun fd => entry fd = some g

theorem countTo_cons (entry : Nat → Option Nat) (fd : Nat) (fds : List Nat) (g : Nat) :
    countTo entry (fd :: fds) g = countTo entry fds g + if entry fd = some g then 1 else 0 := by
  unfold countTo
  rw [List.countP_cons]
  simp only [decide_eq_true_eq]

theorem countTo_cons_none (h : entry fd = none) (fds : List Nat) (g : Nat) :
    countTo entry (fd :: fds) g = countTo entry fds g := by
  rw [countTo_cons, h, if_neg nofun, Nat.add_zero]

theorem countTo_cons_self (h : entry fd = some g) (fds : List Nat) :
    countTo entry (fd :: fds) g = countTo entry fds g + 1 := by
  rw [countTo_cons, if_pos h]

theorem countTo_cons_of_ne {g' : Nat} (h : entry fd = some g) (hne : g' ≠ g) (fds : List Nat) :
    countTo entry (fd :: fds) g' = countTo entry fds g' := by
  rw [countTo_cons, h, if_neg fun heq => hne (Option.some.inj heq).symm, Nat.add_zero]

theorem countTo_update_of_notMem (h : fd ∉ fds) :
    countTo (Function.update entry fd v) fds g = countTo entry fds g := by
  refine List.countP_congr fun a ha => ?_
  have hne : a ≠ fd := fun heq => h (heq ▸ ha)
  rw [Function.update_of_ne hne]

/-- One entry changed. -/
theorem countTo_update (hnd : fds.Nodup) (h : fd ∈ fds) :
    countTo (Function.update entry fd v) fds g + (if entry fd = some g then 1 else 0) =
      countTo entry fds g + if v = some g then 1 else 0 := by
  induction fds with
  | nil => cases h
  | cons a fds ih =>
      rw [List.nodup_cons] at hnd
      rw [countTo_cons, countTo_cons]
      by_cases ha : a = fd
      · subst ha
        rw [countTo_update_of_notMem hnd.1, Function.update_self]
        omega
      · have hmem := (List.mem_cons.1 h).resolve_left (Ne.symm ha)
        rw [Function.update_of_ne ha]
        have := ih hnd.2 hmem
        omega

theorem exists_of_countTo_pos (h : 0 < countTo entry fds g) : ∃ fd ∈ fds, entry fd = some g := by
  obtain ⟨fd, hmem, hfd⟩ := List.countP_pos_iff.1 h
  exact ⟨fd, hmem, of_decide_eq_true hfd⟩

theorem countTo_pos (hmem : fd ∈ fds) (h : entry fd = some g) : 0 < countTo entry fds g :=
  List.countP_pos_iff.2 ⟨fd, hmem, decide_eq_true h⟩

end RecoverOS
