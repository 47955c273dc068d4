import RecoverOS.Base.Bytes
import RecoverOS.Base.Prog
import Mathlib.Data.Finset.Card
import Mathlib.Logic.Function.Basic

set_option autoImplicit false

/-! # Bitmaps (`lib/kernel/bitmap.c`)

A bitmap is `bytes_len` bytes of memory, bit `i` being bit `i % 8` of byte `i / 8`. `bitmapRead` and
`bitmapSet` work on any index, as the C functions do; the callers below them stay inside
`8 * bytes_len`, and an access past it is undefined. -/

namespace RecoverOS

/-- `struct bitmap`. -/
structure Bitmap where
  bytes_len : Nat
  bits : Buf

namespace Bitmap

/-- The number of bits the bitmap really has. -/
def size (b : Bitmap) : Nat := 8 * b.bytes_len

end Bitmap

/-- `bitmap_init`: clear every byte. -/
def bitmapInit (b : Bitmap) : Bitmap := { b with bits := b.bits.patch 0 b.bytes_len Buf.zero }

/-- `bitmap_read`. -/
def bitmapRead (b : Bitmap) (idx : Nat) : Bool :=
  ((b.bits (idx / 8) >>> (idx % 8)) &&& 1) == 1

/-- `bitmap_set`. -/
def bitmapSet (b : Bitmap) (idx : Nat) (value : Bool) : Bitmap :=
  let old := b.bits (idx / 8)
  let mask : Byte := (1 : Byte) <<< (idx % 8)
  let new := if value then old ||| mask else old &&& ~~~mask
  { b with bits := Function.update b.bits (idx / 8) new }

/-- The loop of `bitmap_alloc_a_bit`, with `n` bits left to look at from `i` on. -/
def bitmapAllocABitFrom (b : Bitmap) : Nat → Nat → Option (Nat × Bitmap)
  | 0, _ => none
  | n + 1, i =>
      if bitmapRead b i = false then some (i, bitmapSet b i true)
      else bitmapAllocABitFrom b n (i + 1)

/-- `bitmap_alloc_a_bit`: the first clear bit, which is set; `none` stands for `-1`. -/
def bitmapAllocABit (b : Bitmap) : Option (Nat × Bitmap) := bitmapAllocABitFrom b b.size 0

/-- The inner loop of `bitmap_alloc`: the number of clear bits found from `i + j` on, at most `n`
    more. Reading past the bitmap is undefined. -/
def bitmapRunFrom (b : Bitmap) (i : Nat) : Nat → Nat → Prog Bitmap Nat
  | 0, j => pure j
  | n + 1, j => do
      Prog.require (i + j < b.size)
      if bitmapRead b (i + j) then pure j else bitmapRunFrom b i n (j + 1)

/-- `bitmap_set` on `cnt` bits from `i` on, upwards. -/
def bitmapSetRun (b : Bitmap) (i : Nat) (value : Bool) : Nat → Bitmap
  | 0 => b
  | cnt + 1 => bitmapSet (bitmapSetRun b i value cnt) (i + cnt) value

/-- The outer loop of `bitmap_alloc`, with fuel `n` for the indices still to try. -/
def bitmapAllocFrom (b : Bitmap) (cnt : Nat) : Nat → Nat → Prog Bitmap (Option Nat)
  | 0, _ => pure none
  | n + 1, i =>
      if i < b.size then
        if bitmapRead b i = false then do
          let j ← bitmapRunFrom b i cnt 0
          if j = cnt then do
            Prog.modify fun _ => bitmapSetRun b i true cnt
            pure (some i)
          else bitmapAllocFrom b cnt n (i + j + 1)
        else bitmapAllocFrom b cnt n (i + 1)
      else pure none

/-- `bitmap_alloc`: a run of `cnt` clear bits, which are set; `none` stands for `-1`. Every turn of the
    loop moves on by at least one bit, so `size` turns are enough. -/
def bitmapAlloc (cnt : Nat) : Prog Bitmap (Option Nat) := do
  let b ← Prog.get
  bitmapAllocFrom b cnt b.size 0

/-- `bitmap_free`, from bit `idx + i` on, with `n` bits left. -/
def bitmapFreeFrom (idx : Nat) : Nat → Nat → Prog Bitmap Unit
  | 0, _ => pure ()
  | n + 1, i => do
      let b ← Prog.get
      Prog.require (idx + i < b.size)
      Prog.assert (bitmapRead b (idx + i) = true)
      Prog.modify fun b => bitmapSet b (idx + i) false
      bitmapFreeFrom idx n (i + 1)

/-- `bitmap_free`. -/
def bitmapFree (idx cnt : Nat) : Prog Bitmap Unit := bitmapFreeFrom idx cnt 0

/-! ## Single bits -/

theorem bitmapRead_eq_getLsbD (b : Bitmap) (idx : Nat) :
    bitmapRead b idx = (b.bits (idx / 8)).getLsbD (idx % 8) := by
  unfold bitmapRead
  rw [Bool.eq_iff_iff, beq_iff_eq]
  constructor
  · intro h
    have hbit := congrArg (fun x : Byte => x.getLsbD 0) h
    simpa using hbit
  · intro h
    apply BitVec.eq_of_getLsbD_eq
    intro i _
    by_cases hi : i = 0
    · subst hi
      simpa using h
    · simp [hi]

@[simp] theorem bitmapSet_bytes_len (b : Bitmap) (idx : Nat) (v : Bool) :
    (bitmapSet b idx v).bytes_len = b.bytes_len := rfl

@[simp] theorem bitmapSet_size (b : Bitmap) (idx : Nat) (v : Bool) :
    (bitmapSet b idx v).size = b.size := rfl

/-- Setting one bit changes that bit and no other. -/
theorem bitmapRead_bitmapSet (b : Bitmap) (idx : Nat) (v : Bool) (j : Nat) :
    bitmapRead (bitmapSet b idx v) j = if j = idx then v else bitmapRead b j := by
  simp only [bitmapRead_eq_getLsbD, bitmapSet]
  by_cases hbyte : j / 8 = idx / 8
  · rw [hbyte, Function.update_self]
    have hj : j % 8 < 8 := Nat.mod_lt _ (by decide)
    by_cases hbit : j % 8 = idx % 8
    · have heq : j = idx := by omega
      rw [if_pos heq, hbit]
      have hidx : idx % 8 < 8 := Nat.mod_lt _ (by decide)
      cases v <;> simp [hidx]
    · have hne : j ≠ idx := fun h => hbit (by rw [h])
      rw [if_neg hne]
      by_cases hlt : j % 8 < idx % 8
      · cases v <;> simp [hlt, hj]
      · have hsub : j % 8 - idx % 8 ≠ 0 := by omega
        cases v <;> simp [hlt, hj, hsub]
  · have hne : j ≠ idx := fun h => hbyte (by rw [h])
    rw [if_neg hne, Function.update_of_ne hbyte]

@[simp] theorem bitmapRead_bitmapSet_self (b : Bitmap) (idx : Nat) (v : Bool) :
    bitmapRead (bitmapSet b idx v) idx = v := by
  rw [bitmapRead_bitmapSet, if_pos rfl]

theorem bitmapRead_bitmapSet_of_ne (b : Bitmap) {idx j : Nat} (v : Bool) (h : j ≠ idx) :
    bitmapRead (bitmapSet b idx v) j = bitmapRead b j := by
  rw [bitmapRead_bitmapSet, if_neg h]

/-- A byte whose eight bits are clear is zero, so a bitmap of clear bits reads as zeros. -/
theorem bitmapRead_of_zero {b : Bitmap} {idx : Nat} (h : b.bits (idx / 8) = 0) :
    bitmapRead b idx = false := by
  rw [bitmapRead_eq_getLsbD, h]
  simp

/-! ## Allocating one bit -/

/-- The scan stops at the first clear bit from `i` on. -/
theorem bitmapAllocABitFrom_eq_some {b : Bitmap} {n i k : Nat} {b' : Bitmap}
    (h : bitmapAllocABitFrom b n i = some (k, b')) :
    i ≤ k ∧ k < i + n ∧ bitmapRead b k = false ∧ b' = bitmapSet b k true ∧
      ∀ j, i ≤ j → j < k → bitmapRead b j = true := by
  induction n generalizing i with
  | zero => simp [bitmapAllocABitFrom] at h
  | succ n ih =>
      simp only [bitmapAllocABitFrom] at h
      split at h
      · next hclear =>
          simp only [Option.some.injEq, Prod.mk.injEq] at h
          obtain ⟨rfl, rfl⟩ := h
          exact ⟨Nat.le_refl _, by omega, hclear, rfl, fun j h1 h2 => absurd h1 (by omega)⟩
      · next hset =>
          obtain ⟨h1, h2, h3, h4, h5⟩ := ih h
          refine ⟨by omega, by omega, h3, h4, fun j hj1 hj2 => ?_⟩
          by_cases hji : j = i
          · subst hji
            simpa using hset
          · exact h5 j (by omega) hj2

theorem bitmapAllocABitFrom_eq_none {b : Bitmap} {n i : Nat} :
    bitmapAllocABitFrom b n i = none ↔ ∀ j, i ≤ j → j < i + n → bitmapRead b j = true := by
  induction n generalizing i with
  | zero =>
      simp only [bitmapAllocABitFrom, true_iff]
      intro j h1 h2
      omega
  | succ n ih =>
      simp only [bitmapAllocABitFrom]
      split
      · next hclear =>
          simp only [reduceCtorEq, false_iff, not_forall]
          exact ⟨i, Nat.le_refl _, by omega, by simp [hclear]⟩
      · next hset =>
          rw [ih]
          constructor
          · intro h j h1 h2
            by_cases hji : j = i
            · subst hji
              simpa using hset
            · exact h j (by omega) (by omega)
          · intro h j h1 h2
            exact h j (by omega) (by omega)

/-- What a successful `bitmap_alloc_a_bit` does: the bit was inside the bitmap and clear, it is the
    lowest such bit, and it is now set. -/
theorem bitmapAllocABit_eq_some {b : Bitmap} {k : Nat} {b' : Bitmap}
    (h : bitmapAllocABit b = some (k, b')) :
    k < b.size ∧ bitmapRead b k = false ∧ b' = bitmapSet b k true ∧
      ∀ j < k, bitmapRead b j = true := by
  obtain ⟨-, h2, h3, h4, h5⟩ := bitmapAllocABitFrom_eq_some h
  exact ⟨by omega, h3, h4, fun j hj => h5 j (Nat.zero_le _) hj⟩

theorem bitmapAllocABit_eq_none {b : Bitmap} :
    bitmapAllocABit b = none ↔ ∀ j < b.size, bitmapRead b j = true := by
  unfold bitmapAllocABit
  rw [bitmapAllocABitFrom_eq_none]
  simp

/-- Setting a clear bit leaves one clear bit less. -/
theorem Bitmap.card_clear_set {b : Bitmap} {k : Nat} (hk : k < b.size) (hclear : bitmapRead b k = false) :
    ((Finset.range b.size).filter fun i => bitmapRead (bitmapSet b k true) i = false).card + 1
      = ((Finset.range b.size).filter fun i => bitmapRead b i = false).card := by
  have herase : ((Finset.range b.size).filter fun i => bitmapRead (bitmapSet b k true) i = false)
      = ((Finset.range b.size).filter fun i => bitmapRead b i = false).erase k := by
    ext i
    simp only [Finset.mem_filter, Finset.mem_erase, Finset.mem_range, bitmapRead_bitmapSet]
    by_cases hik : i = k
    · simp [hik]
    · simp [hik]
  have hmem : k ∈ (Finset.range b.size).filter fun i => bitmapRead b i = false := by
    simp [hk, hclear]
  rw [herase, Finset.card_erase_add_one hmem]

end RecoverOS
