import RecoverOS.LibKernel.Bitmap

set_option autoImplicit false

/-! # The mounted file system: data and disk access

The data model of `fs/fs.h`, `fs/super_block.h`, `fs/inode.h` and `device/ide.h` for the one mounted
partition `cur_part`: the disk as the drive holds it, the super block and the two bitmaps as
`mount_partition` read them, and the in-memory inodes.

`struct inode` objects live on the kernel heap and are referred to by address. An address is handed out
once and never again, so a pointer kept past the release of its object has nothing to read: using it is
`Fault.undefined`, as it is in the source. The lock and the list links of a `struct inode` are left out:
one call runs at a time here, so every lock is free when it is acquired, and what `inode_sync` stores in
the 72 bytes they take is overwritten by `inode_open` before anything reads it. -/

namespace RecoverOS

/-! ## Constants -/

/-- `MAX_FILES_PER_PART`. -/
abbrev MAX_FILES_PER_PART : Nat := 4096

/-- `BITS_PER_SECTOR`. -/
abbrev BITS_PER_SECTOR : Nat := 4096

/-- `SECTOR_SIZE`, which is also `BLOCK_SIZE`. -/
abbrev SECTOR_SIZE : Nat := 512

/-- `BLOCK_SIZE`. -/
abbrev BLOCK_SIZE : Nat := SECTOR_SIZE

/-- `NDIRECT`. -/
abbrev NDIRECT : Nat := 12

/-- `MAX_FILE_BLOCKS_CNT`: the direct blocks and the 128 words of the indirect block. -/
abbrev MAX_FILE_BLOCKS_CNT : Nat := NDIRECT + BLOCK_SIZE / 4

/-- `MAX_FILE_SIZE`. -/
abbrev MAX_FILE_SIZE : Nat := MAX_FILE_BLOCKS_CNT * BLOCK_SIZE

/-- `sizeof(struct inode)`. -/
abbrev sizeofInode : Nat := 160

/-- `sizeof(struct dir_entry)`. -/
abbrev sizeofDirEntry : Nat := 32

/-- `FT_UNKNOWN`. File types come from the disk as 32-bit numbers, so they stay numbers here. -/
abbrev FT_UNKNOWN : Nat := 0

/-- `FT_REGULAR`. -/
abbrev FT_REGULAR : Nat := 1

/-- `FT_DIRECTORY`. -/
abbrev FT_DIRECTORY : Nat := 2

/-- `DIV_ROUND_UP`. -/
def divRoundUp (x step : Nat) : Nat := (x + step - 1) / step

/-! ## Machine integers -/

/-- A value kept in a `size_t`. -/
def u64 (n : Nat) : Nat := n % 2 ^ 64

/-- `DIV_ROUND_UP` in `size_t`. -/
def divRoundUp64 (x step : Nat) : Nat := u64 (x + step - 1) / step

/-- `a - b` in `size_t`. -/
def sub64 (a b : Nat) : Nat := (a + 2 ^ 64 - b) % 2 ^ 64

/-- A `size_t` read as an `ssize_t`. -/
def s64 (n : Nat) : Int := if n < 2 ^ 63 then n else (n : Int) - 2 ^ 64

/-- An `ssize_t` read as a `size_t`. -/
def u64OfInt (z : Int) : Nat := (z % 2 ^ 64).toNat

/-- An `int64_t` kept in an `int32_t`. -/
def toInt32 (z : Int) : Int := if z % 2 ^ 32 < 2 ^ 31 then z % 2 ^ 32 else z % 2 ^ 32 - 2 ^ 32

/-- An `int32_t` read as a `uint32_t`. -/
def u32OfInt (z : Int) : Nat := (z % 2 ^ 32).toNat

theorem u64_of_lt {n : Nat} (h : n < 2 ^ 64) : u64 n = n := Nat.mod_eq_of_lt h

theorem s64_of_lt {n : Nat} (h : n < 2 ^ 63) : s64 n = n := if_pos h

theorem sub64_of_le {a b : Nat} (hab : b ≤ a) (ha : a < 2 ^ 64) : sub64 a b = a - b := by
  unfold sub64
  rw [show a + 2 ^ 64 - b = (a - b) + 2 ^ 64 by omega, Nat.add_mod_right, Nat.mod_eq_of_lt (by omega)]

theorem divRoundUp64_of_lt {x step : Nat} (h : x + step < 2 ^ 64) :
    divRoundUp64 x step = (x + step - 1) / step := by
  unfold divRoundUp64
  rw [u64_of_lt (Nat.lt_of_le_of_lt (Nat.sub_le _ _) h)]

theorem u64OfInt_natCast {n : Nat} (h : n < 2 ^ 64) : u64OfInt n = n := by
  unfold u64OfInt
  omega

theorem u64OfInt_s64 {n : Nat} (h : n < 2 ^ 64) : u64OfInt (s64 n) = n := by
  unfold u64OfInt s64
  split <;> omega

theorem toInt32_of_lt {n : Nat} (h : n < 2 ^ 31) : toInt32 n = n := by
  unfold toInt32
  rw [if_pos (by omega)]
  omega

theorem toInt32_neg_one : toInt32 (-1) = -1 := by decide

theorem u32OfInt_natCast {n : Nat} (h : n < 2 ^ 32) : u32OfInt n = n := by
  unfold u32OfInt
  omega

-- The lemmas above say all that is used of these.
attribute [irreducible] u64 divRoundUp64 sub64 s64 u64OfInt toInt32 u32OfInt

/-! ## The super block -/

/-- `struct super_block`, without `magic` and the padding, which nothing modelled here reads. -/
structure SuperBlock where
  sec_cnt : Nat
  lba_base : Nat
  inode_cnt : Nat
  block_bitmap_lba : Nat
  block_bitmap_sects : Nat
  inode_bitmap_lba : Nat
  inode_bitmap_sects : Nat
  inode_table_lba : Nat
  inode_table_sects : Nat
  data_start_lba : Nat
  root_inode_no : Nat
  dir_entry_size : Nat

namespace SuperBlock

/-- The bytes of a `struct super_block` (packed). -/
def encode (sb : SuperBlock) : Buf :=
  Buf.zero.putLE 8 4 sb.sec_cnt |>.putLE 12 4 sb.lba_base |>.putLE 16 8 sb.inode_cnt
    |>.putLE 24 4 sb.block_bitmap_lba |>.putLE 28 4 sb.block_bitmap_sects
    |>.putLE 32 4 sb.inode_bitmap_lba |>.putLE 36 4 sb.inode_bitmap_sects
    |>.putLE 40 4 sb.inode_table_lba |>.putLE 44 4 sb.inode_table_sects
    |>.putLE 48 4 sb.data_start_lba |>.putLE 52 8 sb.root_inode_no |>.putLE 60 8 sb.dir_entry_size

/-- The super block stored at a pointer. -/
def decode (b : Buf) : SuperBlock where
  sec_cnt := b.getLE 8 4
  lba_base := b.getLE 12 4
  inode_cnt := b.getLE 16 8
  block_bitmap_lba := b.getLE 24 4
  block_bitmap_sects := b.getLE 28 4
  inode_bitmap_lba := b.getLE 32 4
  inode_bitmap_sects := b.getLE 36 4
  inode_table_lba := b.getLE 40 4
  inode_table_sects := b.getLE 44 4
  data_start_lba := b.getLE 48 4
  root_inode_no := b.getLE 52 8
  dir_entry_size := b.getLE 60 8

end SuperBlock

/-! ## Inodes -/

/-- `struct inode`: `i_sectors` has thirteen entries, the last of which is the indirect block. -/
structure Inode where
  i_no : Nat
  i_size : Nat
  i_open_cnts : Nat
  f_type : Nat
  i_sectors : Nat → Nat

namespace Inode

/-- The bytes of a `struct inode`. -/
def encode (i : Inode) : Buf :=
  (Buf.zero.putLE 0 8 i.i_no |>.putLE 8 8 i.i_size |>.putLE 16 8 i.i_open_cnts
    |>.putLE 24 4 i.f_type).patch 88 52 (Buf.ofWords i.i_sectors)

/-- The inode stored at a pointer. -/
def decode (b : Buf) : Inode where
  i_no := b.getLE 0 8
  i_size := b.getLE 8 8
  i_open_cnts := b.getLE 16 8
  f_type := b.getLE 24 4
  i_sectors := fun k => if k < NDIRECT + 1 then (b.from 88).word k else 0

end Inode

/-! ## The state -/

/-- The mounted partition, the disk under it and the kernel's `struct inode` objects. -/
structure FS where
  /-- The disk, by byte address: sector `lba` is the 512 bytes from `512 * lba` on. -/
  disk : Buf
  /-- `part->sb`. -/
  sb : SuperBlock
  /-- `part->block_bitmap`. -/
  block_bitmap : Bitmap
  /-- `part->inode_bitmap`. -/
  inode_bitmap : Bitmap
  /-- `part->open_inodes`, from its head on. -/
  open_inodes : List Nat
  /-- The `struct inode` at an address of the kernel heap. -/
  inodes : Nat → Option Inode
  /-- The address the kernel heap hands out next. -/
  next : Nat
  /-- The global `root_dir_inode`. -/
  root_dir_inode : Nat
  /-- The number of heap blocks that are allocated and not freed. -/
  live : Nat

/-! ## Disk and heap primitives -/

/-- `ide_read`: the sectors land at offset `off` of `buf`. -/
def ideRead (lba : Nat) (buf : Buf) (off sec_cnt : Nat) : Prog FS Buf := do
  Prog.assert (sec_cnt > 0)
  Prog.gets fun s => buf.patch off (SECTOR_SIZE * sec_cnt) (s.disk.from (SECTOR_SIZE * lba))

/-- `ide_write`: the sectors come from the start of `buf`. -/
def ideWrite (lba : Nat) (buf : Buf) (sec_cnt : Nat) : Prog FS Unit := do
  Prog.assert (sec_cnt > 0)
  Prog.modify fun s =>
    { s with disk := s.disk.patch (SECTOR_SIZE * lba) (SECTOR_SIZE * sec_cnt) buf }

/-- `sys_malloc` of at most 1024 bytes: it returns a block or panics for want of a page, and here a
    page is there. -/
def sysMalloc : Prog FS Unit := Prog.modify fun s => { s with live := s.live + 1 }

/-- `sys_free` of a block. -/
def sysFree : Prog FS Unit := Prog.modify fun s => { s with live := s.live - 1 }

/-- `kernel_alloc(sizeof(struct inode))`: an address. -/
def kernelAlloc : Prog FS Nat := do
  let p ← Prog.gets FS.next
  Prog.modify fun s => { s with next := s.next + 1, live := s.live + 1 }
  pure p

/-- The `struct inode` a pointer leads to. -/
def inodeAt (inode : Nat) : Prog FS Inode := do
  let s ← Prog.get
  Prog.ofOption (s.inodes inode)

/-- Store a `struct inode` through a pointer. -/
def setInode (inode : Nat) (i : Inode) : Prog FS Unit :=
  Prog.modify fun s => { s with inodes := Function.update s.inodes inode (some i) }

@[simp] theorem ideRead_eq_ok {lba off n : Nat} {buf r : Buf} {s s' : FS} :
    ideRead lba buf off n s = .ok (r, s') ↔
      0 < n ∧ r = buf.patch off (512 * n) (s.disk.from (512 * lba)) ∧ s' = s := by
  simp only [ideRead, Prog.bind_eq_ok, Prog.assert_eq_ok, Prog.gets_eq_ok]
  constructor
  · rintro ⟨-, t, ⟨hn, rfl⟩, rfl, rfl⟩
    exact ⟨hn, rfl, rfl⟩
  · rintro ⟨hn, rfl, rfl⟩
    exact ⟨(), s', ⟨hn, rfl⟩, rfl, rfl⟩

@[simp] theorem ideWrite_eq_ok {lba n : Nat} {buf : Buf} {u : Unit} {s s' : FS} :
    ideWrite lba buf n s = .ok (u, s') ↔
      0 < n ∧ s' = { s with disk := s.disk.patch (512 * lba) (512 * n) buf } := by
  simp only [ideWrite, Prog.bind_eq_ok, Prog.assert_eq_ok, Prog.modify_eq_ok]
  constructor
  · rintro ⟨-, t, ⟨hn, rfl⟩, rfl⟩
    exact ⟨hn, rfl⟩
  · rintro ⟨hn, rfl⟩
    exact ⟨(), s, ⟨hn, rfl⟩, rfl⟩

theorem run_ideRead (lba off : Nat) (buf : Buf) {n : Nat} (hn : 0 < n) (s : FS) :
    ideRead lba buf off n s = .ok (buf.patch off (512 * n) (s.disk.from (512 * lba)), s) :=
  ideRead_eq_ok.2 ⟨hn, rfl, rfl⟩

theorem run_ideWrite (lba : Nat) (buf : Buf) {n : Nat} (hn : 0 < n) (s : FS) :
    ideWrite lba buf n s =
      .ok ((), { s with disk := s.disk.patch (512 * lba) (512 * n) buf }) :=
  ideWrite_eq_ok.2 ⟨hn, rfl⟩

@[simp] theorem sysMalloc_eq_ok {u : Unit} {s s' : FS} :
    sysMalloc s = .ok (u, s') ↔ s' = { s with live := s.live + 1 } :=
  Prog.modify_eq_ok

@[simp] theorem sysFree_eq_ok {u : Unit} {s s' : FS} :
    sysFree s = .ok (u, s') ↔ s' = { s with live := s.live - 1 } :=
  Prog.modify_eq_ok

@[simp] theorem kernelAlloc_eq_ok {p : Nat} {s s' : FS} :
    kernelAlloc s = .ok (p, s') ↔
      p = s.next ∧ s' = { s with next := s.next + 1, live := s.live + 1 } := by
  simp only [kernelAlloc, Prog.bind_eq_ok, Prog.gets_eq_ok, Prog.modify_eq_ok, Prog.pure_eq_ok]
  constructor
  · rintro ⟨_, _, ⟨rfl, rfl⟩, _, _, rfl, rfl, rfl⟩
    exact ⟨rfl, rfl⟩
  · rintro ⟨rfl, rfl⟩
    exact ⟨_, _, ⟨rfl, rfl⟩, (), _, rfl, rfl, rfl⟩

@[simp] theorem inodeAt_eq_ok {p : Nat} {i : Inode} {s s' : FS} :
    inodeAt p s = .ok (i, s') ↔ s.inodes p = some i ∧ s' = s := by
  simp only [inodeAt, Prog.bind_eq_ok, Prog.get_eq_ok, Prog.ofOption_eq_ok]
  constructor
  · rintro ⟨_, _, ⟨rfl, rfl⟩, h, rfl⟩
    exact ⟨h, rfl⟩
  · rintro ⟨h, rfl⟩
    exact ⟨_, _, ⟨rfl, rfl⟩, h, rfl⟩

@[simp] theorem setInode_eq_ok {p : Nat} {i : Inode} {u : Unit} {s s' : FS} :
    setInode p i s = .ok (u, s') ↔
      s' = { s with inodes := Function.update s.inodes p (some i) } :=
  Prog.modify_eq_ok

theorem run_inodeAt {p : Nat} {i : Inode} {s : FS} (h : s.inodes p = some i) :
    inodeAt p s = .ok (i, s) :=
  inodeAt_eq_ok.2 ⟨h, rfl⟩

/-! ## The inode codec -/

namespace Inode

variable {i : Inode}

/-- An inode whose fields fit the widths they are stored in. -/
structure Fits (i : Inode) : Prop where
  no : i.i_no < 2 ^ 64
  size : i.i_size < 2 ^ 64
  type : i.f_type < 2 ^ 32
  sectors : ∀ k < 13, i.i_sectors k < 2 ^ 32

theorem decode_congr {b c : Buf} (h : Buf.Agree b c 0 sizeofInode) : decode b = decode c := by
  have hle : ∀ off w, off + w ≤ 160 → b.getLE off w = c.getLE off w := fun off w hw =>
    Buf.getLE_congr fun a h1 h2 => h a (by omega) (by simp only [sizeofInode]; omega)
  have hsec : ∀ k < 13, (b.from 88).word k = (c.from 88).word k := fun k hk => by
    unfold Buf.word
    rw [Buf.getLE_from, Buf.getLE_from]
    exact hle _ _ (by omega)
  unfold decode
  simp only [hle 0 8 (by decide), hle 8 8 (by decide), hle 16 8 (by decide), hle 24 4 (by decide)]
  congr 1
  funext k
  split
  · next hk => exact hsec k hk
  · rfl

theorem decode_encode_i_no (h : i.Fits) : (decode i.encode).i_no = i.i_no := by
  simp only [decode, encode]
  rw [Buf.getLE_patch_disjoint _ _ (by decide), Buf.getLE_putLE_disjoint _ _ (by decide),
    Buf.getLE_putLE_disjoint _ _ (by decide), Buf.getLE_putLE_disjoint _ _ (by decide)]
  exact Buf.getLE_putLE_of_lt _ _ h.no

theorem decode_encode_i_size (h : i.Fits) : (decode i.encode).i_size = i.i_size := by
  simp only [decode, encode]
  rw [Buf.getLE_patch_disjoint _ _ (by decide), Buf.getLE_putLE_disjoint _ _ (by decide),
    Buf.getLE_putLE_disjoint _ _ (by decide)]
  exact Buf.getLE_putLE_of_lt _ _ h.size

theorem decode_encode_f_type (h : i.Fits) : (decode i.encode).f_type = i.f_type := by
  simp only [decode, encode]
  rw [Buf.getLE_patch_disjoint _ _ (by decide)]
  exact Buf.getLE_putLE_of_lt _ _ h.type

theorem decode_encode_i_sectors (h : i.Fits) {k : Nat} (hk : k < 13) :
    (decode i.encode).i_sectors k = i.i_sectors k := by
  simp only [decode, encode]
  rw [if_pos hk]
  refine (Buf.word_of_ofWords (w := i.i_sectors) fun a h1 h2 => ?_).trans
    (Nat.mod_eq_of_lt (h.sectors k hk))
  exact Buf.from_patch_same _ _ _ _ (by omega)

theorem decode_fits (b : Buf) : (decode b).Fits where
  no := b.getLE_lt 0 8
  size := b.getLE_lt 8 8
  type := b.getLE_lt 24 4
  sectors := fun k hk => by
    simp only [decode]
    rw [if_pos hk]
    exact Buf.word_lt _ k

end Inode

end RecoverOS
