import RecoverOS.Fs.Inode
import Mathlib.Data.Finset.Card
import Mathlib.Order.Interval.Finset.Nat

set_option autoImplicit false

/-! # Block allocation

What `block_bitmap_alloc` and `block_bitmap_free` do to the state: which bit changes, which bytes of the
disk change, and how many blocks are left. Everything above works with three notions only: `FS.used b`
(the bit of block `b` is set), `FS.freeBlocks` (how many bits are clear) and `FS.takeBlock` (the state
after one allocation). -/

namespace RecoverOS

/-! ## The layout of the partition -/

/-- The regions of the partition follow one another, and every block number fits an `int32_t`. -/
structure Geometry (s : FS) : Prop where
  block_len : s.block_bitmap.bytes_len = 512 * s.sb.block_bitmap_sects
  inode_len : s.inode_bitmap.bytes_len = 512
  inode_lba : s.sb.inode_bitmap_lba = s.sb.block_bitmap_lba + s.sb.block_bitmap_sects
  table_lba : s.sb.inode_table_lba = s.sb.inode_bitmap_lba + 1
  data_lba : s.sb.data_start_lba = s.sb.inode_table_lba + 1280
  small : s.sb.data_start_lba + s.block_bitmap.size < 2 ^ 31

namespace Geometry

variable {s s' : FS}

theorem size_eq (g : Geometry s) : s.block_bitmap.size = 4096 * s.sb.block_bitmap_sects := by
  rw [Bitmap.size, g.block_len]
  omega

/-- The layout only depends on the super block and the lengths of the bitmaps. -/
theorem congr (g : Geometry s) (hsb : s'.sb = s.sb)
    (hb : s'.block_bitmap.bytes_len = s.block_bitmap.bytes_len)
    (hi : s'.inode_bitmap.bytes_len = s.inode_bitmap.bytes_len) : Geometry s' where
  block_len := by rw [hb, hsb]; exact g.block_len
  inode_len := by rw [hi]; exact g.inode_len
  inode_lba := by rw [hsb]; exact g.inode_lba
  table_lba := by rw [hsb]; exact g.table_lba
  data_lba := by rw [hsb]; exact g.data_lba
  small := by rw [hsb, Bitmap.size, hb]; exact g.small

end Geometry

namespace FS

variable {s : FS}

/-- Block `b` is a data block whose bit is set. -/
def used (s : FS) (b : Nat) : Prop :=
  s.sb.data_start_lba ≤ b ∧ b < s.sb.data_start_lba + s.block_bitmap.size ∧
    bitmapRead s.block_bitmap (b - s.sb.data_start_lba) = true

instance (s : FS) (b : Nat) : Decidable (s.used b) := by
  unfold used
  infer_instance

/-- The number of data blocks whose bit is clear. -/
def freeBlocks (s : FS) : Nat :=
  ((Finset.range s.block_bitmap.size).filter fun i => bitmapRead s.block_bitmap i = false).card

/-- The state once bit `k` of the block bitmap is set and its sector written. -/
def takeBlock (s : FS) (k : Nat) : FS :=
  let btmp := bitmapSet s.block_bitmap k true
  { s with
    block_bitmap := btmp
    disk := s.disk.patch (512 * (s.sb.block_bitmap_lba + k / 4096)) 512
      (btmp.bits.from (512 * (k / 4096))) }

theorem used_congr {s' : FS} (hsb : s'.sb = s.sb) (hbm : s'.block_bitmap = s.block_bitmap)
    (b : Nat) : s'.used b ↔ s.used b := by
  unfold used
  rw [hsb, hbm]

theorem used_ne_zero (g : Geometry s) {b : Nat} (h : s.used b) : b ≠ 0 := by
  have hb := h.1
  rw [g.data_lba] at hb
  omega

theorem used_lt (g : Geometry s) {b : Nat} (h : s.used b) : b < 2 ^ 31 :=
  lt_trans h.2.1 g.small

theorem used_takeBlock {k b : Nat} (hk : k < s.block_bitmap.size) :
    (s.takeBlock k).used b ↔ s.used b ∨ b = s.sb.data_start_lba + k := by
  simp only [used, takeBlock, bitmapSet_size]
  constructor
  · rintro ⟨h1, h2, h3⟩
    by_cases hbk : b - s.sb.data_start_lba = k
    · exact Or.inr (by omega)
    · rw [bitmapRead_bitmapSet_of_ne _ _ hbk] at h3
      exact Or.inl ⟨h1, h2, h3⟩
  · rintro (⟨h1, h2, h3⟩ | rfl)
    · refine ⟨h1, h2, ?_⟩
      rw [bitmapRead_bitmapSet]
      split
      · rfl
      · exact h3
    · exact ⟨by omega, by omega, by simp⟩

/-- A clear bit of the bitmap is a block not in use. -/
theorem not_used_of_clear {k : Nat} (h : bitmapRead s.block_bitmap k = false) :
    ¬ s.used (s.sb.data_start_lba + k) := by
  rintro ⟨-, -, h3⟩
  rw [Nat.add_sub_cancel_left, h] at h3
  exact Bool.false_ne_true h3

/-- Taking a block writes to the block bitmap's sectors only. -/
theorem takeBlock_disk (g : Geometry s) {k a : Nat} (hk : k < s.block_bitmap.size)
    (ha : 512 * s.sb.inode_bitmap_lba ≤ a) : (s.takeBlock k).disk a = s.disk a := by
  rw [g.size_eq] at hk
  rw [g.inode_lba] at ha
  exact Buf.patch_outside _ _ (by omega)

theorem freeBlocks_takeBlock {k : Nat} (hk : k < s.block_bitmap.size)
    (hclear : bitmapRead s.block_bitmap k = false) :
    (s.takeBlock k).freeBlocks + 1 = s.freeBlocks :=
  Bitmap.card_clear_set hk hclear

theorem freeBlocks_eq_zero (h : bitmapAllocABit s.block_bitmap = none) : s.freeBlocks = 0 := by
  rw [bitmapAllocABit_eq_none] at h
  refine Finset.card_eq_zero.2 (Finset.filter_eq_empty_iff.2 fun i hi => ?_)
  simp [h i (Finset.mem_range.1 hi)]

end FS

/-! ## `block_bitmap_alloc` -/

section Alloc

variable {s : FS}

theorem blockBitmapAlloc_none (h : bitmapAllocABit s.block_bitmap = none) :
    blockBitmapAlloc s = .ok (-1, s) := by
  unfold blockBitmapAlloc
  rw [Prog.bind_of_ok (a := s) (t := s) rfl, h]
  rfl

theorem blockBitmapAlloc_some {k : Nat} {btmp : Bitmap}
    (h : bitmapAllocABit s.block_bitmap = some (k, btmp)) :
    blockBitmapAlloc s = .ok (((s.sb.data_start_lba + k : Nat) : Int), s.takeBlock k) := by
  obtain ⟨-, -, rfl, -⟩ := bitmapAllocABit_eq_some h
  unfold blockBitmapAlloc
  rw [Prog.bind_of_ok (a := s) (t := s) rfl, h]
  simp only [Prog.run_modify_bind]
  rw [Prog.bind_of_ok (a := ()) (t := s.takeBlock k)]
  · rw [Prog.run_pure, Int.natCast_add]
  · exact run_ideWrite _ _ Nat.one_pos _

/-- Either no block is free, or the lowest free block is taken. -/
theorem blockBitmapAlloc_cases (s : FS) :
    (bitmapAllocABit s.block_bitmap = none ∧ blockBitmapAlloc s = .ok (-1, s)) ∨
    ∃ k btmp, bitmapAllocABit s.block_bitmap = some (k, btmp) ∧
      blockBitmapAlloc s = .ok (((s.sb.data_start_lba + k : Nat) : Int), s.takeBlock k) := by
  cases h : bitmapAllocABit s.block_bitmap with
  | none => exact Or.inl ⟨rfl, blockBitmapAlloc_none h⟩
  | some r =>
      obtain ⟨k, btmp⟩ := r
      exact Or.inr ⟨k, btmp, rfl, blockBitmapAlloc_some h⟩

/-- A block number survives the trip through `int32_t`, and is not taken for the failure value. -/
theorem toInt32_block (g : Geometry s) {k : Nat} (hk : k < s.block_bitmap.size) :
    toInt32 ((s.sb.data_start_lba + k : Nat) : Int) = ((s.sb.data_start_lba + k : Nat) : Int) ∧
      ((s.sb.data_start_lba + k : Nat) : Int) ≠ -1 ∧
      u32OfInt ((s.sb.data_start_lba + k : Nat) : Int) = s.sb.data_start_lba + k := by
  have hsmall := g.small
  exact ⟨toInt32_of_lt (by omega), by omega, u32OfInt_natCast (by omega)⟩

/-- The three outcomes of looking up a block: it is there, there is none and none is free, or the lowest
    free block is entered. -/
theorem ensureBlock_cases (g : Geometry s) (all : Nat → Nat) (idx : Nat) :
    (all idx ≠ 0 ∧ ensureBlock all idx s = .ok (some all, s)) ∨
    (all idx = 0 ∧ bitmapAllocABit s.block_bitmap = none ∧
      ensureBlock all idx s = .ok (none, s)) ∨
    ∃ k btmp, all idx = 0 ∧ bitmapAllocABit s.block_bitmap = some (k, btmp) ∧
      ensureBlock all idx s =
        .ok (some (Function.update all idx (s.sb.data_start_lba + k)), s.takeBlock k) := by
  unfold ensureBlock
  by_cases h0 : all idx = 0
  · right
    simp only [if_pos h0]
    rcases blockBitmapAlloc_cases s with ⟨hnone, hrun⟩ | ⟨k, btmp, hsome, hrun⟩
    · left
      refine ⟨h0, hnone, ?_⟩
      rw [Prog.bind_of_ok hrun, toInt32_neg_one]
      rfl
    · right
      refine ⟨k, btmp, h0, hsome, ?_⟩
      obtain ⟨h1, h2, h3⟩ := toInt32_block g (bitmapAllocABit_eq_some hsome).1
      rw [Prog.bind_of_ok hrun, h1]
      simp only [if_neg h2, h3]
      rfl
  · left
    exact ⟨h0, by rw [if_neg h0]; rfl⟩

end Alloc

/-! ## `block_bitmap_free` -/

namespace FS

/-- The state once block `b` is given back: its bit clear, its sector zeroed, the bitmap written. -/
def giveBlock (s : FS) (b : Nat) : FS :=
  let k := b - s.sb.data_start_lba
  let btmp := bitmapSet s.block_bitmap k false
  { s with
    block_bitmap := btmp
    disk := (s.disk.patch (512 * b) 512 Buf.zero).patch
      (512 * (s.sb.block_bitmap_lba + k / 4096)) 512 (btmp.bits.from (512 * (k / 4096))) }

variable {s : FS}

theorem used_giveBlock {b c : Nat} (hb : s.used b) : (s.giveBlock b).used c ↔ s.used c ∧ c ≠ b := by
  obtain ⟨hb1, hb2, -⟩ := hb
  simp only [used, giveBlock, bitmapSet_size]
  constructor
  · rintro ⟨h1, h2, h3⟩
    have hne : c - s.sb.data_start_lba ≠ b - s.sb.data_start_lba := by
      intro h
      rw [h, bitmapRead_bitmapSet_self] at h3
      exact Bool.false_ne_true h3
    rw [bitmapRead_bitmapSet_of_ne _ _ hne] at h3
    exact ⟨⟨h1, h2, h3⟩, fun h => hne (by rw [h])⟩
  · rintro ⟨⟨h1, h2, h3⟩, hne⟩
    refine ⟨h1, h2, ?_⟩
    rw [bitmapRead_bitmapSet_of_ne _ _ (by omega)]
    exact h3

theorem giveBlock_geometry {b : Nat} (g : Geometry s) : Geometry (s.giveBlock b) :=
  g.congr rfl rfl rfl

/-- Giving a block back writes to the block bitmap's sectors and to the block itself. -/
theorem giveBlock_disk (g : Geometry s) {b a : Nat} (hb : s.used b)
    (ha : 512 * s.sb.inode_bitmap_lba ≤ a) (hab : a < 512 * b ∨ 512 * b + 512 ≤ a) :
    (s.giveBlock b).disk a = s.disk a := by
  obtain ⟨hb1, hb2, -⟩ := hb
  rw [g.size_eq] at hb2
  rw [g.inode_lba] at ha
  have hk : (b - s.sb.data_start_lba) / 4096 < s.sb.block_bitmap_sects :=
    Nat.div_lt_of_lt_mul (by omega)
  unfold giveBlock
  dsimp only
  rw [Buf.patch_outside _ _ (by omega), Buf.patch_outside _ _ hab]

end FS

theorem blockBitmapFree_of_used {s : FS} (g : Geometry s) {b : Nat} (hb : s.used b) :
    blockBitmapFree b s = .ok ((), s.giveBlock b) := by
  obtain ⟨hb1, hb2, -⟩ := hb
  have hsmall := g.small
  have hsub : sub64 b s.sb.data_start_lba = b - s.sb.data_start_lba := sub64_of_le hb1 (by omega)
  have hin : b - s.sb.data_start_lba < s.block_bitmap.size := by omega
  unfold blockBitmapFree
  rw [Prog.bind_of_ok (a := s) (t := s) rfl]
  rw [Prog.run_require_bind (hsub.symm ▸ hin)]
  simp only [hsub, Prog.run_modify_bind]
  rw [Prog.bind_of_ok (run_ideWrite b Buf.zero Nat.one_pos _)]
  exact run_ideWrite _ _ Nat.one_pos _

end RecoverOS
