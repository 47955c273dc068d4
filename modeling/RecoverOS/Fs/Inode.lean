import RecoverOS.Fs.State

set_option autoImplicit false

/-! # The inode layer (`fs/inode.c`)

Every function of `fs/inode.c` below the directory layer, statement by statement. The calls to
`printk`, to `set_intr_stat` and to the inode lock have no effect on a run in which one call at a time
is active, and are left out. Sizes and positions are `size_t` values, so sums wrap at `2 ^ 64`. -/

namespace RecoverOS

/-! ## The inode table -/

/-- `struct inode_position`. -/
structure InodePosition where
  lba : Nat
  off_size : Nat

/-- `inode_locate`. -/
def inodeLocate (inode_no : Nat) : Prog FS InodePosition := do
  Prog.assert (inode_no < MAX_FILES_PER_PART)
  let sb ← Prog.gets FS.sb
  let off_size := sizeofInode * inode_no
  pure ⟨sb.inode_table_lba + off_size / SECTOR_SIZE, off_size % SECTOR_SIZE⟩

/-- `inode_sync`: read the two sectors around the record, change the record, write them back. -/
def inodeSync (inode : Nat) : Prog FS Unit := do
  let pure_inode ← inodeAt inode
  let inode_pos ← inodeLocate pure_inode.i_no
  sysMalloc
  let io_buf ← ideRead inode_pos.lba Buf.zero 0 2
  ideWrite inode_pos.lba (io_buf.patch inode_pos.off_size sizeofInode pure_inode.encode) 2
  sysFree

/-! ## Opening and closing -/

namespace FS

/-- `list_traversal(&part->open_inodes, find_inode, &inode_no)`. -/
def findInode (s : FS) (inode_no : Nat) : Option Nat :=
  s.open_inodes.find? fun p =>
    match s.inodes p with
    | some i => i.i_no == inode_no
    | none => false

end FS

/-- `inode_open`. -/
def inodeOpen (inode_no : Nat) : Prog FS Nat := do
  let inode_elem ← Prog.gets fun s => s.findInode inode_no
  match inode_elem with
  | some p => do
      let inode_found ← inodeAt p
      setInode p { inode_found with i_open_cnts := inode_found.i_open_cnts + 1 }
      pure p
  | none => do
      let inode_pos ← inodeLocate inode_no
      let p ← kernelAlloc
      sysMalloc
      let inode_buf ← ideRead inode_pos.lba Buf.zero 0 2
      sysFree
      setInode p { Inode.decode (inode_buf.from inode_pos.off_size) with i_open_cnts := 1 }
      Prog.modify fun s => { s with open_inodes := p :: s.open_inodes }
      pure p

/-- `inode_close`. The root inode is never closed; the last close releases the object. The count of an
    open inode is at least 1, so the decrement does not wrap. -/
def inodeClose (inode : Nat) : Prog FS Unit := do
  let s ← Prog.get
  if inode = s.root_dir_inode then pure ()
  else do
    let i ← inodeAt inode
    if i.i_open_cnts = 1 then
      Prog.modify fun s =>
        { s with
          open_inodes := s.open_inodes.erase inode
          inodes := Function.update s.inodes inode none
          live := s.live - 1 }
    else setInode inode { i with i_open_cnts := i.i_open_cnts - 1 }

/-! ## Block addresses -/

/-- `get_blocks_lba` into an array of zeros: the direct blocks, then the words of the indirect block if
    there is one. -/
def getBlocksLba (inode : Inode) : Prog FS (Nat → Nat) := do
  let s ← Prog.get
  pure fun k =>
    if k < NDIRECT then inode.i_sectors k
    else if inode.i_sectors NDIRECT ≠ 0 ∧ k < MAX_FILE_BLOCKS_CNT then
      (s.disk.from (SECTOR_SIZE * inode.i_sectors NDIRECT)).word (k - NDIRECT)
    else 0

/-! ## Reading -/

/-- The loop of `inode_read`: `read_buf` is filled from offset `off` on. -/
def readLoop (all_blocks : Nat → Nat) (block_idx_end : Nat) :
    Nat → Nat → Buf → Nat → Prog FS Buf
  | 0, _, _, _ => Prog.fault .undefined
  | n + 1, block_idx, read_buf, off =>
      if block_idx = block_idx_end then pure read_buf
      else do
        Prog.require (block_idx < MAX_FILE_BLOCKS_CNT)
        let block_lba := all_blocks block_idx
        let read_buf ←
          if block_lba ≠ 0 then ideRead block_lba read_buf off 1
          else pure (read_buf.patch off BLOCK_SIZE Buf.zero)
        readLoop all_blocks block_idx_end n (block_idx + 1) read_buf (off + BLOCK_SIZE)

/-- The local `real_count` of `inode_read`. -/
def realCount (i_size count pos : Nat) : Int :=
  if i_size < u64 (pos + count) then s64 (sub64 i_size pos) else s64 count

/-- `inode_read`: the value returned and the contents of `buf` afterwards. `mallocOk size` tells whether
    `sys_malloc(size)` finds room for the temporary buffer. The array has 140 entries, so a loop that
    has not ended after 141 turns from index 0 has left it. -/
def inodeRead (mallocOk : Nat → Bool) (inode : Nat) (buf : Buf) (count pos : Nat) :
    Prog FS (Int × Buf) := do
  let i ← inodeAt inode
  let real_count := realCount i.i_size count pos
  if i.i_size < u64 (pos + count) ∧ real_count ≤ 0 then pure (-1, buf)
  else do
    let block_idx_start := pos / BLOCK_SIZE
    let block_idx_end := divRoundUp64 (u64 (pos + u64OfInt real_count)) BLOCK_SIZE
    let read_buf_size := u64 (BLOCK_SIZE * sub64 block_idx_end block_idx_start)
    if mallocOk read_buf_size = false then pure (-1, buf)
    else do
      sysMalloc
      let all_blocks ← getBlocksLba i
      let read_buf ← readLoop all_blocks block_idx_end (MAX_FILE_BLOCKS_CNT + 1 - block_idx_start)
        block_idx_start Buf.zero 0
      let block_off := pos % BLOCK_SIZE
      Prog.require (block_off + u64OfInt real_count ≤ read_buf_size)
      sysFree
      pure (real_count, buf.patch 0 (u64OfInt real_count) (read_buf.from block_off))

/-! ## Allocating and freeing blocks -/

/-- Write the sector of an in-memory bitmap that holds bit `bit_idx` to its place on the disk. -/
def writeBitmapSector (bitmap_lba : Nat) (btmp : Bitmap) (bit_idx : Nat) : Prog FS Unit :=
  let off_sec := bit_idx / BITS_PER_SECTOR
  ideWrite (bitmap_lba + off_sec) (btmp.bits.from (BLOCK_SIZE * off_sec)) 1

/-- `block_bitmap_alloc`: a block number, or `-1`. -/
def blockBitmapAlloc : Prog FS Int := do
  let s ← Prog.get
  match bitmapAllocABit s.block_bitmap with
  | none => pure (-1)
  | some (bit_idx, btmp) => do
      Prog.modify fun s => { s with block_bitmap := btmp }
      writeBitmapSector s.sb.block_bitmap_lba btmp bit_idx
      pure (s.sb.data_start_lba + bit_idx)

/-- `block_bitmap_free`: clear the bit, then the sector, then write the bitmap sector. -/
def blockBitmapFree (block_lba : Nat) : Prog FS Unit := do
  let s ← Prog.get
  let bit_idx := sub64 block_lba s.sb.data_start_lba
  Prog.require (bit_idx < s.block_bitmap.size)
  let btmp := bitmapSet s.block_bitmap bit_idx false
  Prog.modify fun s => { s with block_bitmap := btmp }
  ideWrite block_lba Buf.zero 1
  writeBitmapSector s.sb.block_bitmap_lba btmp bit_idx

/-! ## Writing -/

/-- The first step of `inode_write`: allocate the indirect block when the write ends past the direct
    blocks and there is none. `false` stands for the return of `-1`. -/
def allocIndirect (inode : Nat) (last : Nat) : Prog FS Bool := do
  let i ← inodeAt inode
  if i.i_sectors NDIRECT = 0 ∧ last > BLOCK_SIZE * NDIRECT then do
    let b ← blockBitmapAlloc
    let indire_block_idx := toInt32 b
    if indire_block_idx = -1 then pure false
    else do
      ideWrite (u32OfInt indire_block_idx) Buf.zero 1
      setInode inode { i with
        i_sectors := Function.update i.i_sectors NDIRECT (u32OfInt indire_block_idx) }
      pure true
  else pure true

/-- The block that holds file block `block_idx`, allocated if there is none, and the array with it
    entered; `none` stands for the return of `-1`. -/
def ensureBlock (all_blocks : Nat → Nat) (block_idx : Nat) : Prog FS (Option (Nat → Nat)) := do
  if all_blocks block_idx = 0 then do
    let b ← blockBitmapAlloc
    let block := toInt32 b
    if block = -1 then pure none
    else pure (some (Function.update all_blocks block_idx (u32OfInt block)))
  else pure (some all_blocks)

/-- What a call of `inode_write` keeps in local variables while it loops. -/
structure WriteArgs where
  block_idx_start : Nat
  block_idx_end : Nat
  block_off : Nat
  block_end_off : Nat
  count : Nat

/-- The loop of `inode_write`: `buf` is the caller's buffer from the byte to write next on. `none`
    stands for the return of `-1`. -/
def writeLoop (w : WriteArgs) : Nat → Nat → (Nat → Nat) → Buf → Prog FS (Option (Nat → Nat))
  | 0, _, _, _ => Prog.fault .undefined
  | n + 1, block_idx, all_blocks, buf =>
      if block_idx = w.block_idx_end then pure (some all_blocks)
      else do
        Prog.require (block_idx < MAX_FILE_BLOCKS_CNT)
        let ensured ← ensureBlock all_blocks block_idx
        match ensured with
        | none => pure none
        | some all_blocks => do
            let block_lba := all_blocks block_idx
            if block_idx = w.block_idx_start then do
              let write_buf ← ideRead block_lba Buf.zero 0 1
              let cpy_cnt := if block_idx + 1 = w.block_idx_end then w.count
                else BLOCK_SIZE - w.block_off
              Prog.require (w.block_off + cpy_cnt ≤ BLOCK_SIZE * 2)
              ideWrite block_lba (write_buf.patch w.block_off cpy_cnt buf) 1
              if block_idx + 1 = w.block_idx_end then pure (some all_blocks)
              else writeLoop w n (block_idx + 1) all_blocks (buf.from cpy_cnt)
            else if block_idx + 1 = w.block_idx_end then do
              let write_buf ← ideRead block_lba Buf.zero 0 1
              ideWrite block_lba (write_buf.patch 0 w.block_end_off buf) 1
              pure (some all_blocks)
            else do
              ideWrite block_lba buf 1
              writeLoop w n (block_idx + 1) all_blocks (buf.from BLOCK_SIZE)

/-- The end of `inode_write`: the new size and direct blocks go into the inode and to the inode table,
    the indirect words to the indirect block. -/
def writeBack (inode : Nat) (all_blocks : Nat → Nat) (last : Nat) : Prog FS Unit := do
  let i ← inodeAt inode
  let i' : Inode := { i with
    i_size := if last > i.i_size then last else i.i_size
    i_sectors := fun k => if k < NDIRECT then all_blocks k else i.i_sectors k }
  setInode inode i'
  inodeSync inode
  if i'.i_sectors NDIRECT ≠ 0 then
    ideWrite (i'.i_sectors NDIRECT) (Buf.ofWords fun k => all_blocks (NDIRECT + k)) 1
  else pure ()

/-- `inode_write`. -/
def inodeWrite (inode : Nat) (buf : Buf) (count pos : Nat) : Prog FS Int := do
  let last := u64 (pos + count)
  if last > MAX_FILE_SIZE then pure (-1)
  else do
    sysMalloc
    let indirectOk ← allocIndirect inode last
    if indirectOk = false then pure (-1)
    else do
      let i ← inodeAt inode
      let all_blocks ← getBlocksLba i
      let w : WriteArgs :=
        { block_idx_start := pos / BLOCK_SIZE
          block_idx_end := divRoundUp last BLOCK_SIZE
          block_off := pos % BLOCK_SIZE
          block_end_off := last % BLOCK_SIZE
          count := count }
      let written ← writeLoop w (MAX_FILE_BLOCKS_CNT + 1 - w.block_idx_start) w.block_idx_start
        all_blocks buf
      match written with
      | none => pure (-1)
      | some all_blocks => do
          writeBack inode all_blocks last
          sysFree
          pure (s64 count)

/-! ## Creating and deleting inodes -/

/-- `inode_alloc`: the address of the new inode, or `none` for `NULL`. -/
def inodeAlloc (file_type : Nat) : Prog FS (Option Nat) := do
  let s ← Prog.get
  match bitmapAllocABit s.inode_bitmap with
  | none => pure none
  | some (bit_idx, btmp) => do
      Prog.modify fun s => { s with inode_bitmap := btmp }
      writeBitmapSector s.sb.inode_bitmap_lba btmp bit_idx
      let inode ← kernelAlloc
      setInode inode
        { i_no := bit_idx, i_size := 0, i_open_cnts := 1, f_type := file_type,
          i_sectors := fun _ => 0 }
      Prog.modify fun s => { s with open_inodes := inode :: s.open_inodes }
      inodeSync inode
      pure (some inode)

/-- The loop of `inode_free`. -/
def freeLoop (all_blocks : Nat → Nat) : Nat → Nat → Prog FS Unit
  | 0, _ => pure ()
  | n + 1, block_idx => do
      if all_blocks block_idx ≠ 0 then blockBitmapFree (all_blocks block_idx) else pure ()
      freeLoop all_blocks n (block_idx + 1)

/-- `inode_free`. The bits are cleared before the open count is looked at. -/
def inodeFree (inode : Nat) : Prog FS Unit := do
  let i ← inodeAt inode
  let s ← Prog.get
  Prog.require (i.i_no < s.inode_bitmap.size)
  Prog.modify fun s => { s with inode_bitmap := bitmapSet s.inode_bitmap i.i_no false }
  let all_blocks ← getBlocksLba i
  freeLoop all_blocks MAX_FILE_BLOCKS_CNT 0
  Prog.assert (i.i_open_cnts = 1)
  inodeClose inode

end RecoverOS
