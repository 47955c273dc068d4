import RecoverOS.Fs.Inode

set_option autoImplicit false

/-! # Formatting and mounting a partition (`fs/fs.c`)

`sb_init`, `partition_format`, `mount_partition` and the part of `filesys_init` that formats the chosen
partition, mounts it and opens the root directory. -/

namespace RecoverOS

/-- `struct partition`, as the partition table describes it. The places that `sb_init` adds up from it,
    and the numbers of the blocks that the block bitmap has bits for, fit an `int32_t`. -/
structure Partition where
  start_lba : Nat
  sec_cnt : Nat
  addressable : start_lba + 1283 + 4097 * divRoundUp sec_cnt BITS_PER_SECTOR < 2 ^ 31

/-- `sb_init`. -/
def sbInit (sec_cnt start_lba : Nat) : SuperBlock :=
  let inode_bitmap_sects := divRoundUp MAX_FILES_PER_PART BITS_PER_SECTOR
  let inode_table_sects := divRoundUp (MAX_FILES_PER_PART * sizeofInode) SECTOR_SIZE
  let block_bitmap_sects := divRoundUp sec_cnt BITS_PER_SECTOR
  let block_bitmap_lba := start_lba + 2
  let inode_bitmap_lba := block_bitmap_lba + block_bitmap_sects
  let inode_table_lba := inode_bitmap_lba + inode_bitmap_sects
  { sec_cnt := sec_cnt
    lba_base := start_lba
    inode_cnt := MAX_FILES_PER_PART
    block_bitmap_lba := block_bitmap_lba
    block_bitmap_sects := block_bitmap_sects
    inode_bitmap_lba := inode_bitmap_lba
    inode_bitmap_sects := inode_bitmap_sects
    inode_table_lba := inode_table_lba
    inode_table_sects := inode_table_sects
    data_start_lba := inode_table_lba + inode_table_sects
    root_inode_no := 0
    dir_entry_size := sizeofDirEntry }

/-- The root inode `partition_format` stores: it is written over zeros, so its open count is 0. -/
def rootInode (sb : SuperBlock) : Inode :=
  { i_no := 0
    i_size := sb.dir_entry_size * 2
    i_open_cnts := 0
    f_type := FT_DIRECTORY
    i_sectors := fun k => if k = 0 then sb.data_start_lba else 0 }

/-- `partition_format` stores one directory entry: the characters of the name with their NUL, the inode
    number and the type, at offset `off` of a buffer that is not cleared in between. -/
def putDirEntry (buf : Buf) (off : Nat) (name : List Byte) (i_no f_type : Nat) : Buf :=
  ((buf.patch off (name.length + 1) fun k => name.getD k 0).putLE (off + 16) 8 i_no).putLE
    (off + 24) 4 f_type

/-- `.` as a character. -/
abbrev dotChar : Byte := 46

/-- `partition_format`. The one buffer is as long as the inode table; a block bitmap longer than that
    is written past its end. -/
def partitionFormat (part : Partition) : Prog FS Unit := do
  let sb := sbInit part.sec_cnt part.start_lba
  ideWrite (part.start_lba + 1) sb.encode 1
  let buf_size := SECTOR_SIZE * sb.inode_table_sects
  sysMalloc
  let bytes_len := SECTOR_SIZE * sb.block_bitmap_sects
  Prog.require (bytes_len ≤ buf_size)
  let btmp := bitmapInit ⟨bytes_len, Buf.zero.patch 0 bytes_len fun _ => 0xff⟩
  let r ← Prog.onLocal btmp (bitmapAlloc 1)
  ideWrite sb.block_bitmap_lba r.2.bits sb.block_bitmap_sects
  let bytes_len := SECTOR_SIZE * sb.inode_bitmap_sects
  let btmp := bitmapInit ⟨bytes_len, r.2.bits.patch 0 bytes_len fun _ => 0xff⟩
  let btmp := bitmapSet btmp 0 true
  ideWrite sb.inode_bitmap_lba btmp.bits sb.inode_bitmap_sects
  let buf := btmp.bits.patch 0 buf_size Buf.zero
  let buf := buf.patch 0 sizeofInode (rootInode sb).encode
  ideWrite sb.inode_table_lba buf sb.inode_table_sects
  let buf := putDirEntry buf 0 [dotChar] 0 FT_DIRECTORY
  let buf := putDirEntry buf sizeofDirEntry [dotChar, dotChar] 0 FT_DIRECTORY
  ideWrite sb.data_start_lba buf 1
  sysFree

/-- `mount_partition`. -/
def mountPartition (part : Partition) : Prog FS Unit := do
  sysMalloc
  sysMalloc
  let sb_buf ← ideRead (part.start_lba + 1) Buf.zero 0 1
  let sb := SuperBlock.decode sb_buf
  sysFree
  sysMalloc
  let block_bits ← ideRead sb.block_bitmap_lba Buf.zero 0 sb.block_bitmap_sects
  sysMalloc
  let inode_bits ← ideRead sb.inode_bitmap_lba Buf.zero 0 sb.inode_bitmap_sects
  Prog.modify fun s =>
    { s with
      sb := sb
      block_bitmap := ⟨SECTOR_SIZE * sb.block_bitmap_sects, block_bits⟩
      inode_bitmap := ⟨SECTOR_SIZE * sb.inode_bitmap_sects, inode_bits⟩
      open_inodes := [] }

/-- `filesys_init` on a partition that no file system was found on. -/
def filesysInit (part : Partition) : Prog FS Unit := do
  partitionFormat part
  mountPartition part
  let root ← inodeOpen 0
  Prog.modify fun s => { s with root_dir_inode := root }

/-- The state before `filesys_init`: a disk, and nothing in memory. Address 0 is `NULL`. -/
def FS.boot (disk : Buf) : FS where
  disk := disk
  sb := sbInit 0 0
  block_bitmap := ⟨0, Buf.zero⟩
  inode_bitmap := ⟨0, Buf.zero⟩
  open_inodes := []
  inodes := fun _ => none
  next := 1
  root_dir_inode := 0
  live := 0

end RecoverOS
