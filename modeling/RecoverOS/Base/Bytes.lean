import Mathlib.Algebra.Group.Int.Defs
import Mathlib.Algebra.Group.Nat.Defs
import Mathlib.Tactic.SplitIfs

set_option autoImplicit false

/-! # Byte buffers

A `Buf` is memory seen from one pointer: the byte at every offset. Copying `n` bytes to an offset is
`Buf.patch`, moving the pointer is `Buf.from`. Numbers are stored little-endian: `leBytes v` is the
infinite little-endian expansion of `v`, of which a field of width `w` stores the first `w` bytes, and
`Buf.getLE` reads such a field back. -/

namespace RecoverOS

/-- One byte. -/
abbrev Byte := BitVec 8

/-- Memory, by offset from a pointer. -/
abbrev Buf := Nat → Byte

namespace Buf

/-- Memory holding zeros. -/
def zero : Buf := fun _ => 0

/-- The same memory seen from `off` bytes further on. -/
def «from» (b : Buf) (off : Nat) : Buf := fun a => b (off + a)

/-- `b` after the first `n` bytes of `src` were copied to offset `at`. -/
def patch (b : Buf) (pos n : Nat) (src : Buf) : Buf := fun a =>
  if pos ≤ a ∧ a < pos + n then src (a - pos) else b a

/-- `b` and `c` hold the same `n` bytes from offset `pos` on. -/
def Agree (b c : Buf) (pos n : Nat) : Prop := ∀ a, pos ≤ a → a < pos + n → b a = c a

@[simp] theorem from_apply (b : Buf) (off a : Nat) : b.from off a = b (off + a) := rfl

@[simp] theorem zero_apply (a : Nat) : zero a = 0 := rfl

theorem from_from (b : Buf) (m n : Nat) : (b.from m).from n = b.from (m + n) := by
  funext a
  simp only [from_apply, Nat.add_assoc]

@[simp] theorem from_zero (b : Buf) : b.from 0 = b := by
  funext a
  simp

theorem patch_inside (b : Buf) (src : Buf) {pos n a : Nat} (h1 : pos ≤ a) (h2 : a < pos + n) :
    b.patch pos n src a = src (a - pos) := by
  unfold patch
  rw [if_pos ⟨h1, h2⟩]

theorem patch_outside (b : Buf) (src : Buf) {pos n a : Nat} (h : a < pos ∨ pos + n ≤ a) :
    b.patch pos n src a = b a := by
  unfold patch
  rw [if_neg (by omega)]

@[simp] theorem patch_zero_len (b : Buf) (pos : Nat) (src : Buf) : b.patch pos 0 src = b := by
  funext a
  exact patch_outside b src (by omega)

/-- Reading back a whole patch through a moved pointer. -/
theorem from_patch_same (b : Buf) (pos n : Nat) (src : Buf) {k : Nat} (hk : k < n) :
    (b.patch pos n src).from pos k = src k := by
  rw [from_apply, patch_inside b src (by omega) (by omega), Nat.add_sub_cancel_left]

/-- What was read to the start of a buffer is what the buffer holds. -/
theorem patch_start (b : Buf) (n : Nat) (src : Buf) {k : Nat} (hk : k < n) :
    b.patch 0 n src k = src k := by
  rw [patch_inside b src (Nat.zero_le k) (by omega), Nat.sub_zero]

/-- A patch of two buffers that agree at a byte. -/
theorem patch_congr_at {b c : Buf} {a : Nat} (h : b a = c a) (pos n : Nat) (src : Buf) :
    b.patch pos n src a = c.patch pos n src a := by
  unfold patch
  rw [h]

/-- A patch only reads the first `n` bytes of its source. -/
theorem patch_congr (b : Buf) (pos n : Nat) {src src' : Buf} (h : ∀ k < n, src k = src' k) :
    b.patch pos n src = b.patch pos n src' := by
  funext a
  by_cases ha : pos ≤ a ∧ a < pos + n
  · rw [patch_inside b _ ha.1 ha.2, patch_inside b _ ha.1 ha.2]
    exact h _ (by omega)
  · rw [patch_outside b _ (by omega), patch_outside b _ (by omega)]

/-- A read-modify-write of the `n` bytes at `pos` that changes `m` bytes inside them is a patch of
    those `m` bytes. -/
theorem patch_patch_from (b : Buf) {pos n off m : Nat} (src : Buf) (h : off + m ≤ n) :
    b.patch pos n ((b.from pos).patch off m src) = b.patch (pos + off) m src := by
  funext a
  by_cases ha : pos ≤ a ∧ a < pos + n
  · rw [patch_inside b _ ha.1 ha.2]
    by_cases hm : off ≤ a - pos ∧ a - pos < off + m
    · rw [patch_inside _ _ hm.1 hm.2, patch_inside b src (by omega) (by omega)]
      congr 1
      omega
    · rw [patch_outside _ _ (by omega), from_apply, patch_outside b src (by omega)]
      congr 1
      omega
  · rw [patch_outside b _ (by omega), patch_outside b _ (by omega)]

theorem Agree.symm {b c : Buf} {pos n : Nat} (h : Agree b c pos n) : Agree c b pos n :=
  fun a h1 h2 => (h a h1 h2).symm

theorem Agree.trans {b c d : Buf} {pos n : Nat} (h : Agree b c pos n) (h' : Agree c d pos n) :
    Agree b d pos n :=
  fun a h1 h2 => (h a h1 h2).trans (h' a h1 h2)

/-- A patch leaves the bytes of a disjoint range alone. -/
theorem patch_agree (b : Buf) {pos n pos' n' : Nat} (src : Buf)
    (h : pos' + n' ≤ pos ∨ pos + n ≤ pos') : Agree (b.patch pos n src) b pos' n' :=
  fun a h1 h2 => patch_outside b src (by omega)

end Buf

/-! ## Little-endian numbers -/

/-- The little-endian expansion of `v`. -/
def leBytes (v : Nat) : Buf := fun k => BitVec.ofNat 8 (v / 256 ^ k)

namespace Buf

/-- The number stored little-endian in the `w` bytes at `off`. -/
def getLE (b : Buf) (off : Nat) : Nat → Nat
  | 0 => 0
  | w + 1 => b.getLE off w + (b (off + w)).toNat * 256 ^ w

/-- Store `v` little-endian in the `w` bytes at `off`. -/
def putLE (b : Buf) (off w v : Nat) : Buf := b.patch off w (leBytes v)

theorem getLE_congr {b c : Buf} {off w : Nat} (h : Agree b c off w) :
    b.getLE off w = c.getLE off w := by
  induction w with
  | zero => rfl
  | succ w ih =>
      simp only [getLE]
      rw [ih (fun a h1 h2 => h a h1 (by omega)), h (off + w) (by omega) (by omega)]

theorem getLE_from (b : Buf) (m off w : Nat) : (b.from m).getLE off w = b.getLE (m + off) w := by
  induction w with
  | zero => rfl
  | succ w ih => simp only [getLE, ih, from_apply, Nat.add_assoc]

theorem getLE_lt (b : Buf) (off w : Nat) : b.getLE off w < 256 ^ w := by
  induction w with
  | zero => simp [getLE]
  | succ w ih =>
      have hb : (b (off + w)).toNat ≤ 255 := by omega
      have hm := Nat.mul_le_mul_right (256 ^ w) hb
      simp only [getLE, Nat.pow_succ]
      omega

/-- A field whose bytes are those of `leBytes v` holds `v`, cut to the field's width. -/
theorem getLE_of_leBytes {b : Buf} {off v : Nat} (w : Nat)
    (h : ∀ k < w, b (off + k) = leBytes v k) : b.getLE off w = v % 256 ^ w := by
  induction w with
  | zero => simp [getLE, Nat.mod_one]
  | succ w ih =>
      simp only [getLE]
      rw [ih (fun k hk => h k (by omega)), h w (by omega)]
      simp only [leBytes, BitVec.toNat_ofNat]
      change v % 256 ^ w + v / 256 ^ w % 256 * 256 ^ w = v % 256 ^ (w + 1)
      rw [Nat.pow_succ, Nat.mod_mul, Nat.mul_comm (256 ^ w)]

theorem getLE_putLE_same (b : Buf) (off w v : Nat) : (b.putLE off w v).getLE off w = v % 256 ^ w :=
  getLE_of_leBytes w fun k hk => patch_inside b _ (by omega) (by omega) |>.trans (by simp)

theorem getLE_putLE_of_lt (b : Buf) (off : Nat) {w v : Nat} (hv : v < 256 ^ w) :
    (b.putLE off w v).getLE off w = v := by
  rw [getLE_putLE_same, Nat.mod_eq_of_lt hv]

theorem getLE_patch_disjoint (b : Buf) {off w pos n : Nat} (src : Buf)
    (h : off + w ≤ pos ∨ pos + n ≤ off) : (b.patch pos n src).getLE off w = b.getLE off w :=
  getLE_congr (patch_agree b src h)

theorem getLE_putLE_disjoint (b : Buf) {off w pos n : Nat} (v : Nat)
    (h : off + w ≤ pos ∨ pos + n ≤ off) : (b.putLE pos n v).getLE off w = b.getLE off w :=
  getLE_patch_disjoint b _ h

/-! ## Arrays of 32-bit words -/

/-- The array of 32-bit words `w`, as bytes. -/
def ofWords (w : Nat → Nat) : Buf := fun a => leBytes (w (a / 4)) (a % 4)

/-- The `k`-th 32-bit word of a buffer. -/
def word (b : Buf) (k : Nat) : Nat := b.getLE (4 * k) 4

theorem word_lt (b : Buf) (k : Nat) : b.word k < 2 ^ 32 := by
  have h := b.getLE_lt (4 * k) 4
  exact h

theorem word_congr {b c : Buf} {k : Nat} (h : Agree b c (4 * k) 4) : b.word k = c.word k :=
  getLE_congr h

theorem word_of_ofWords {b : Buf} {k : Nat} {w : Nat → Nat}
    (h : Agree b (ofWords w) (4 * k) 4) : b.word k = w k % 2 ^ 32 := by
  refine (getLE_of_leBytes (v := w k) 4 fun j hj => ?_).trans rfl
  rw [h (4 * k + j) (by omega) (by omega)]
  unfold ofWords
  rw [show (4 * k + j) / 4 = k by omega, show (4 * k + j) % 4 = j by omega]

theorem word_zero (k : Nat) : zero.word k = 0 := by
  have h : Agree zero (ofWords fun _ => 0) (4 * k) 4 := fun a _ _ => by simp [ofWords, leBytes]
  exact word_of_ofWords h

end Buf

end RecoverOS
