import Mathlib.Data.List.Basic
import Mathlib.Data.Nat.ModEq
import Mathlib.Logic.Function.Basic

set_option autoImplicit false

/-! # Circular buffers

`n` cells that hold a queue: its front is at `tail`, and the cell to fill next is `len` cells further on,
round the end. The queue is the list `Ring.contents`. -/

namespace RecoverOS

namespace Ring

variable {α : Type} {n tail len : Nat} {buf : Nat → α}

/-- The `len` cells from `tail` on. -/
def contents (n : Nat) (buf : Nat → α) (tail len : Nat) : List α :=
  (List.range len).map fun k => buf ((tail + k) % n)

/-- The number of cells from `tail` to `head`. -/
def dist (n head tail : Nat) : Nat := if tail ≤ head then head - tail else n - (tail - head)

/-- Two offsets below the size lead to two cells. -/
theorem offset_inj {j k : Nat} (hj : j < n) (hk : k < n) (h : (tail + j) % n = (tail + k) % n) : j = k := by
  have hmod : j ≡ k [MOD n] := Nat.ModEq.add_left_cancel' tail h
  exact Nat.ModEq.eq_of_lt_of_lt hmod hj hk

/-- Filling the next cell appends to the queue. -/
theorem contents_put (hlen : len < n) (a : α) :
    contents n (Function.update buf ((tail + len) % n) a) tail (len + 1) =
      contents n buf tail len ++ [a] := by
  unfold contents
  rw [List.range_succ, List.map_append]
  congr 1
  · refine List.map_congr_left fun k hk => ?_
    rw [List.mem_range] at hk
    refine Function.update_of_ne (fun heq => ?_) _ _
    have hkl : k = len := offset_inj (Nat.lt_trans hk hlen) hlen heq
    omega
  · rw [List.map_singleton, Function.update_self]

/-- Emptying the cell at the front takes the first of the queue. -/
theorem contents_get (htail : tail < n) :
    contents n buf tail (len + 1) = buf tail :: contents n buf ((tail + 1) % n) len := by
  unfold contents
  rw [List.range_succ_eq_map, List.map_cons, List.map_map, Nat.add_zero, Nat.mod_eq_of_lt htail]
  congr 1
  refine List.map_congr_left fun k _ => ?_
  show buf ((tail + (k + 1)) % n) = buf (((tail + 1) % n + k) % n)
  rw [Nat.mod_add_mod, Nat.add_assoc, Nat.add_comm 1 k]

theorem dist_eq (htail : tail < n) (hlen : len < n) : dist n ((tail + len) % n) tail = len := by
  unfold dist
  by_cases hwrap : tail + len < n
  · rw [Nat.mod_eq_of_lt hwrap, if_pos (Nat.le_add_right _ _), Nat.add_sub_cancel_left]
  · have hmod : (tail + len) % n = tail + len - n := by
      rw [Nat.mod_eq_sub_mod (Nat.le_of_not_lt hwrap), Nat.mod_eq_of_lt (by omega)]
    rw [hmod, if_neg (by omega)]
    omega

/-- The cell to fill next is `d` cells past a given one only for one length. -/
theorem next_eq_iff {d : Nat} (hlen : len < n) (hd : d < n) (htail : tail < n) :
    (tail + len + d) % n = tail ↔ len + d = 0 ∨ len + d = n := by
  constructor
  · intro h
    by_cases hlt : len + d < n
    · have h0 : (tail + (len + d)) % n = (tail + 0) % n := by
        rw [← Nat.add_assoc, h, Nat.add_zero, Nat.mod_eq_of_lt htail]
      exact .inl (offset_inj hlt (Nat.lt_of_le_of_lt (Nat.zero_le _) htail) h0)
    · have hmod : (tail + len + d) % n = (tail + (len + d - n)) % n := by
        rw [← Nat.add_mod_right (tail + (len + d - n)) n]
        congr 1
        omega
      have h0 : (tail + (len + d - n)) % n = (tail + 0) % n := by
        rw [← hmod, h, Nat.add_zero, Nat.mod_eq_of_lt htail]
      have := offset_inj (by omega) (Nat.lt_of_le_of_lt (Nat.zero_le _) htail) h0
      omega
  · rintro (h | h)
    · rw [Nat.add_assoc, h, Nat.add_zero, Nat.mod_eq_of_lt htail]
    · rw [Nat.add_assoc, h, Nat.add_mod_right, Nat.mod_eq_of_lt htail]

end Ring

end RecoverOS
