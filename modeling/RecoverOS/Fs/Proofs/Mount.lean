import RecoverOS.Fs.Format
import RecoverOS.Fs.Proofs.Lifecycle

set_option autoImplicit false

/-! # A freshly formatted and mounted partition

`filesys_init` establishes the invariant: what `partition_format` writes is what `mount_partition` and
`inode_open` read back. -/

namespace RecoverOS

/-! ## The super block on the disk -/

namespace SuperBlock

/-- A super block whose fields fit the widths they are stored in. -/
structure Fits (sb : SuperBlock) : Prop where
  sec_cnt : sb.sec_cnt < 256 ^ 4
  lba_base : sb.lba_base < 256 ^ 4
  inode_cnt : sb.inode_cnt < 256 ^ 8
  block_bitmap_lba : sb.block_bitmap_lba < 256 ^ 4
  block_bitmap_sects : sb.block_bitmap_sects < 256 ^ 4
  inode_bitmap_lba : sb.inode_bitmap_lba < 256 ^ 4
  inode_bitmap_sects : sb.inode_bitmap_sects < 256 ^ 4
  inode_table_lba : sb.inode_table_lba < 256 ^ 4
  inode_table_sects : sb.inode_table_sects < 256 ^ 4
  data_start_lba : sb.data_start_lba < 256 ^ 4
  root_inode_no : sb.root_inode_no < 256 ^ 8
  dir_entry_size : sb.dir_entry_size < 256 ^ 8

theorem decode_congr {b c : Buf} (h : Buf.Agree b c 0 68) : decode b = decode c := by
  have hle : ∀ off w, off + w ≤ 68 → b.getLE off w = c.getLE off w := fun off w hw =>
    Buf.getLE_congr fun a h1 h2 => h a (by omega) (by omega)
  unfold decode
  simp only [hle 8 4 (by decide), hle 12 4 (by decide), hle 16 8 (by decide), hle 24 4 (by decide),
    hle 28 4 (by decide), hle 32 4 (by decide), hle 36 4 (by decide), hle 40 4 (by decide),
    hle 44 4 (by decide), hle 48 4 (by decide), hle 52 8 (by decide), hle 60 8 (by decide)]

/-- Every field is stored at a place of its own. -/
theorem decode_encode {sb : SuperBlock} (h : sb.Fits) : decode sb.encode = sb := by
  unfold decode encode
  simp (disch := decide) only [Buf.getLE_putLE_disjoint]
  simp only [Buf.getLE_putLE_of_lt _ _ h.sec_cnt, Buf.getLE_putLE_of_lt _ _ h.lba_base,
    Buf.getLE_putLE_of_lt _ _ h.inode_cnt, Buf.getLE_putLE_of_lt _ _ h.block_bitmap_lba,
    Buf.getLE_putLE_of_lt _ _ h.block_bitmap_sects, Buf.getLE_putLE_of_lt _ _ h.inode_bitmap_lba,
    Buf.getLE_putLE_of_lt _ _ h.inode_bitmap_sects, Buf.getLE_putLE_of_lt _ _ h.inode_table_lba,
    Buf.getLE_putLE_of_lt _ _ h.inode_table_sects, Buf.getLE_putLE_of_lt _ _ h.data_start_lba,
    Buf.getLE_putLE_of_lt _ _ h.root_inode_no, Buf.getLE_putLE_of_lt _ _ h.dir_entry_size]

end SuperBlock

/-! ## What `partition_format` writes -/

/-- The places `sb_init` computes follow one another. -/
structure Layout (part : Partition) (sb : SuperBlock) : Prop where
  block_bitmap_lba : sb.block_bitmap_lba = part.start_lba + 2
  inode_bitmap_lba : sb.inode_bitmap_lba = sb.block_bitmap_lba + sb.block_bitmap_sects
  inode_bitmap_sects : sb.inode_bitmap_sects = 1
  inode_table_lba : sb.inode_table_lba = sb.inode_bitmap_lba + 1
  inode_table_sects : sb.inode_table_sects = 1280
  data_start_lba : sb.data_start_lba = sb.inode_table_lba + 1280
  sects : sb.block_bitmap_sects = divRoundUp part.sec_cnt BITS_PER_SECTOR
  dir_entry_size : sb.dir_entry_size = 32
  fits : sb.Fits

theorem layout_sbInit (part : Partition) : Layout part (sbInit part.sec_cnt part.start_lba) := by
  have haddr : part.start_lba + 1283 + 4097 * ((part.sec_cnt + 4095) / 4096) < 2 ^ 31 := part.addressable
  have hsects : divRoundUp part.sec_cnt 4096 = (part.sec_cnt + 4095) / 4096 := rfl
  have hib : divRoundUp 4096 4096 = 1 := by decide
  have htab : divRoundUp (4096 * 160) 512 = 1280 := by decide
  constructor
  case block_bitmap_lba => rfl
  case inode_bitmap_lba => rfl
  case inode_bitmap_sects => exact hib
  case inode_table_lba => exact congrArg (part.start_lba + 2 + divRoundUp part.sec_cnt 4096 + ·) hib
  case inode_table_sects => exact htab
  case data_start_lba =>
    exact congrArg (part.start_lba + 2 + divRoundUp part.sec_cnt 4096 + divRoundUp 4096 4096 + ·) htab
  case sects => rfl
  case dir_entry_size => rfl
  case fits =>
    constructor <;>
      simp only [sbInit, BITS_PER_SECTOR, MAX_FILES_PER_PART, SECTOR_SIZE, sizeofInode,
        sizeofDirEntry, hsects, hib, htab] <;>
      omega

/-- One bit is allocated of a bitmap that is clear: the first. -/
theorem bitmapAlloc_one {b : Bitmap} (hsize : 0 < b.size) (hclear : bitmapRead b 0 = false) :
    ∃ r, bitmapAlloc 1 b = .ok (r, bitmapSet b 0 true) := by
  obtain ⟨n, hn⟩ : ∃ n, b.size = n + 1 := ⟨b.size - 1, by omega⟩
  have hrun : bitmapRunFrom b 0 1 0 b = .ok (1, b) := by
    rw [bitmapRunFrom, Prog.run_require_bind (by omega), if_neg (by simp [hclear])]
    rfl
  unfold bitmapAlloc
  rw [Prog.bind_of_ok (a := b) (t := b) rfl, hn, bitmapAllocFrom, if_pos hsize, if_pos hclear,
    Prog.bind_of_ok hrun, if_pos rfl]
  simp only [Prog.run_modify_bind]
  exact ⟨_, rfl⟩

theorem bitmapAlloc_one_eq {b b' : Bitmap} {r : Option Nat} (hsize : 0 < b.size)
    (hclear : bitmapRead b 0 = false) (h : bitmapAlloc 1 b = .ok (r, b')) :
    b' = bitmapSet b 0 true := by
  obtain ⟨r', hrun⟩ := bitmapAlloc_one hsize hclear
  rw [hrun] at h
  cases h
  rfl

theorem bitmapRead_bitmapInit (b : Bitmap) {idx : Nat} (h : idx < b.size) :
    bitmapRead (bitmapInit b) idx = false := by
  refine bitmapRead_of_zero ?_
  unfold Bitmap.size at h
  exact Buf.patch_start _ _ _ (by omega)

theorem bitmapRead_congr {b c : Bitmap} {idx : Nat} (h : b.bits (idx / 8) = c.bits (idx / 8)) :
    bitmapRead b idx = bitmapRead c idx := by
  unfold bitmapRead
  rw [h]

/-- The disk of a fresh file system: what each region holds. -/
structure Formatted (part : Partition) (sb : SuperBlock) (disk : Buf) : Prop where
  sects : 0 < sb.block_bitmap_sects
  super : Buf.Agree (disk.from (512 * (part.start_lba + 1))) sb.encode 0 512
  block_bits : ∀ b : Bitmap, (∀ k < 512 * sb.block_bitmap_sects,
      b.bits k = disk (512 * sb.block_bitmap_lba + k)) →
    ∀ idx < 4096 * sb.block_bitmap_sects, bitmapRead b idx = decide (idx = 0)
  inode_bits : ∀ b : Bitmap, (∀ k < 512, b.bits k = disk (512 * sb.inode_bitmap_lba + k)) →
    ∀ idx < 4096, bitmapRead b idx = decide (idx = 0)
  root : Buf.Agree (disk.from (512 * sb.inode_table_lba)) (rootInode sb).encode 0 160
  dots : ∃ buf, Buf.Agree (disk.from (512 * sb.data_start_lba))
    (putDirEntry (putDirEntry buf 0 [dotChar] 0 FT_DIRECTORY) sizeofDirEntry [dotChar, dotChar] 0
      FT_DIRECTORY) 0 512

theorem partitionFormat_formatted {part : Partition} {s s' : FS}
    (h : partitionFormat part s = .ok ((), s')) :
    s' = { s with disk := s'.disk } ∧
      Formatted part (sbInit part.sec_cnt part.start_lba) s'.disk ∧
      ∀ a, 512 * ((sbInit part.sec_cnt part.start_lba).data_start_lba + 1) ≤ a →
        s'.disk a = s.disk a := by
  have hl := layout_sbInit part
  simp only [partitionFormat, Prog.bind_eq_ok, ideWrite_eq_ok, sysMalloc_eq_ok, sysFree_eq_ok,
    Prog.require_eq_ok, Prog.onLocal_eq_ok] at h
  generalize sbInit part.sec_cnt part.start_lba = sb at h hl ⊢
  obtain ⟨-, s1, ⟨-, rfl⟩, -, s2, rfl, -, s3, ⟨-, rfl⟩, ⟨r, btmp⟩, s4, ⟨halloc, rfl⟩, -, s5,
    ⟨hsects, rfl⟩, -, s6, ⟨-, rfl⟩, -, s7, ⟨-, rfl⟩, -, s8, ⟨-, rfl⟩, rfl⟩ := h
  have hbb := hl.block_bitmap_lba
  have hib := hl.inode_bitmap_lba
  have htab := hl.inode_table_lba
  have hdata := hl.data_start_lba
  simp only [hl.inode_bitmap_sects, hl.inode_table_sects]
  refine ⟨rfl, ?_, fun a ha => by repeat rw [Buf.patch_outside _ _ (by omega)]⟩
  constructor
  case sects => exact hsects
  case super =>
    intro a _ ha
    simp only [Buf.from_apply]
    repeat rw [Buf.patch_outside _ _ (by omega)]
    rw [Buf.patch_inside _ _ (by omega) (by omega), Nat.add_sub_cancel_left]
  case block_bits =>
    intro b hb idx hidx
    have hset := bitmapAlloc_one_eq (by
        show 0 < 8 * (512 * sb.block_bitmap_sects)
        omega) (bitmapRead_bitmapInit _ (by
          show 0 < 8 * (512 * sb.block_bitmap_sects)
          omega)) halloc
    have hbyte := hb (idx / 8) (by omega)
    rw [Buf.patch_outside _ _ (by omega), Buf.patch_outside _ _ (by omega),
      Buf.patch_outside _ _ (by omega), Buf.patch_inside _ _ (by omega) (by omega),
      Nat.add_sub_cancel_left] at hbyte
    rw [bitmapRead_congr hbyte, hset, bitmapRead_bitmapSet]
    by_cases h0 : idx = 0
    · simp [h0]
    · rw [if_neg h0, bitmapRead_bitmapInit]
      · simp [h0]
      · show idx < 8 * (512 * sb.block_bitmap_sects)
        omega
  case inode_bits =>
    intro b hb idx hidx
    have hbyte := hb (idx / 8) (by omega)
    rw [Buf.patch_outside _ _ (by omega), Buf.patch_outside _ _ (by omega),
      Buf.patch_inside _ _ (by omega) (by omega), Nat.add_sub_cancel_left] at hbyte
    rw [bitmapRead_congr hbyte, bitmapRead_bitmapSet]
    by_cases h0 : idx = 0
    · simp [h0]
    · rw [if_neg h0, bitmapRead_bitmapInit]
      · simp [h0]
      · show idx < 8 * (512 * 1)
        omega
  case root =>
    intro a _ ha
    simp only [Buf.from_apply]
    rw [Buf.patch_outside _ _ (by omega), Buf.patch_inside _ _ (by omega) (by omega),
      Nat.add_sub_cancel_left]
    exact Buf.patch_start _ _ _ (by omega)
  case dots =>
    exact ⟨_, fun a _ ha => Buf.from_patch_same _ _ _ _ (by omega)⟩

/-! ## What `mount_partition` reads -/

/-- The state `filesys_init` leaves: the layout, one used block, one inode, which is open. -/
structure Mounted (part : Partition) (s : FS) : Prop where
  layout : Layout part s.sb
  formatted : Formatted part s.sb s.disk
  block_len : s.block_bitmap.bytes_len = 512 * s.sb.block_bitmap_sects
  inode_len : s.inode_bitmap.bytes_len = 512
  block_bits : ∀ idx < 4096 * s.sb.block_bitmap_sects,
    bitmapRead s.block_bitmap idx = decide (idx = 0)
  inode_bits : ∀ idx < 4096, bitmapRead s.inode_bitmap idx = decide (idx = 0)

/-- What `filesys_init` does before it opens the root directory. -/
theorem mountPartition_mounted {part : Partition} {s s1 s2 : FS}
    (h1 : partitionFormat part s = .ok ((), s1)) (h2 : mountPartition part s1 = .ok ((), s2)) :
    Mounted part s2 ∧ s2.open_inodes = [] ∧ s2.inodes = s.inodes ∧
      ∀ a, 512 * (s2.sb.data_start_lba + 1) ≤ a → s2.disk a = s.disk a := by
  obtain ⟨hframe, hform, hrest⟩ := partitionFormat_formatted h1
  have hl := layout_sbInit part
  generalize sbInit part.sec_cnt part.start_lba = sb at hform hl hrest
  have hdec : SuperBlock.decode (Buf.zero.patch 0 (512 * 1)
      (s1.disk.from (512 * (part.start_lba + 1)))) = sb := by
    rw [← SuperBlock.decode_encode hl.fits]
    refine SuperBlock.decode_congr fun a h ha => ?_
    rw [Buf.patch_start _ _ _ (by omega)]
    exact hform.super a h (by omega)
  simp only [mountPartition, Prog.bind_eq_ok, sysMalloc_eq_ok, sysFree_eq_ok, ideRead_eq_ok,
    Prog.modify_eq_ok] at h2
  obtain ⟨-, t1, rfl, -, t2, rfl, b1, t3, ⟨-, rfl, rfl⟩, -, t4, rfl, -, t5, rfl, b2, t6,
    ⟨-, rfl, rfl⟩, -, t7, rfl, b3, t8, ⟨-, rfl, rfl⟩, rfl⟩ := h2
  simp only [SECTOR_SIZE, hdec]
  refine ⟨?_, trivial, by rw [hframe], hrest⟩
  constructor
  case layout => exact hl
  case formatted => exact hform
  case block_len => rfl
  case inode_len =>
    show 512 * sb.inode_bitmap_sects = 512
    rw [hl.inode_bitmap_sects]
  case block_bits =>
    refine hform.block_bits _ fun k hk => ?_
    exact (Buf.patch_start _ _ _ (by omega)).trans rfl
  case inode_bits =>
    refine hform.inode_bits _ fun k hk => ?_
    exact (Buf.patch_start _ _ _ (by rw [hl.inode_bitmap_sects]; omega)).trans rfl

section Fresh

variable {part : Partition} {s : FS}

theorem Mounted.geometry (h : Mounted part s) : Geometry s := by
  have hl := h.layout
  have haddr := part.addressable
  have hsects := hl.sects
  constructor
  case block_len => exact h.block_len
  case inode_len => exact h.inode_len
  case inode_lba => exact hl.inode_bitmap_lba
  case table_lba => exact hl.inode_table_lba
  case data_lba => exact hl.data_start_lba
  case small =>
    rw [Bitmap.size, h.block_len, hl.data_start_lba, hl.inode_table_lba, hl.inode_bitmap_lba,
      hl.block_bitmap_lba]
    omega

theorem Mounted.allocated_iff (h : Mounted part s) (no : Nat) : s.allocated no ↔ no = 0 := by
  unfold FS.allocated
  constructor
  · rintro ⟨hno, hset⟩
    rw [h.inode_bits no hno] at hset
    exact of_decide_eq_true hset
  · rintro rfl
    exact ⟨by decide, by rw [h.inode_bits 0 (by decide)]; rfl⟩

theorem rootInode_fits {sb : SuperBlock} (hl : Layout part sb) : (rootInode sb).Fits := by
  have hsize := hl.dir_entry_size
  have hdata := hl.fits.data_start_lba
  constructor
  case no => exact Nat.two_pow_pos 64
  case size =>
    show sb.dir_entry_size * 2 < 2 ^ 64
    rw [hsize]
    decide
  case type =>
    show FT_DIRECTORY < 2 ^ 32
    decide
  case sectors =>
    intro k _
    show (if k = 0 then sb.data_start_lba else 0) < 2 ^ 32
    split <;> omega

/-- The record of the root directory. -/
theorem Mounted.record_root (h : Mounted part s) :
    (s.record 0).i_no = 0 ∧ (s.record 0).i_size = 64 ∧ (s.record 0).f_type = FT_DIRECTORY ∧
      ∀ k < 13, (s.record 0).i_sectors k = if k = 0 then s.sb.data_start_lba else 0 := by
  have hfits := rootInode_fits h.layout
  have hsize := h.layout.dir_entry_size
  have hrec : s.record 0 = Inode.decode (rootInode s.sb).encode := by
    refine Inode.decode_congr fun a h1 h2 => ?_
    exact h.formatted.root a h1 h2
  rw [hrec, Inode.decode_encode_i_no hfits, Inode.decode_encode_i_size hfits,
    Inode.decode_encode_f_type hfits]
  refine ⟨rfl, ?_, rfl, fun k hk => Inode.decode_encode_i_sectors hfits hk⟩
  show s.sb.dir_entry_size * 2 = 64
  rw [hsize]

/-- Block 0 is the one in use. -/
theorem Mounted.used_iff (h : Mounted part s) (b : Nat) : s.used b ↔ b = s.sb.data_start_lba := by
  have hsize : s.block_bitmap.size = 4096 * s.sb.block_bitmap_sects := by
    rw [Bitmap.size, h.block_len]
    omega
  have hsects := h.formatted.sects
  unfold FS.used
  constructor
  · rintro ⟨hge, hlt, hset⟩
    rw [hsize] at hlt
    rw [h.block_bits _ (by omega)] at hset
    have h0 := of_decide_eq_true hset
    omega
  · rintro rfl
    rw [Nat.sub_self, h.block_bits 0 (by omega)]
    exact ⟨Nat.le_refl _, by omega, rfl⟩

/-- The only block the root directory names is the first data block. -/
theorem Mounted.slot_root (h : Mounted part s) {i : Inode}
    (hi : ∀ k < 13, i.i_sectors k = (s.record 0).i_sectors k) (k : Nat) :
    i.slot s.disk k = if k = 0 then s.sb.data_start_lba else 0 := by
  have hsec := h.record_root.2.2.2
  have h12 : i.i_sectors 12 = 0 := (hi 12 (by decide)).trans (hsec 12 (by decide))
  by_cases hk : k < 12
  · rw [Inode.slot_block (by omega), Inode.blocks_direct hk, hi k (by omega), hsec k (by omega)]
  · rw [if_neg (by omega)]
    by_cases h140 : k = 140
    · rw [h140, Inode.slot_indirect, h12]
    · by_cases hk' : k < 140
      · rw [Inode.slot_block hk', Inode.blocks_no_indirect h12 (by omega)]
      · exact Inode.slot_beyond (by omega)

end Fresh

/-! ## The state `filesys_init` leaves -/

/-- `filesys_init` opens the root directory, and nothing else is open. -/
theorem filesysInit_eq {part : Partition} {disk : Buf} {s : FS}
    (h : filesysInit part (FS.boot disk) = .ok ((), s)) :
    ∃ t : FS, Mounted part t ∧ t.open_inodes = [] ∧ t.inodes = (fun _ => none) ∧
      (∀ a, 512 * (t.sb.data_start_lba + 1) ≤ a → t.disk a = disk a) ∧
      s = { t.loadInode 0 with root_dir_inode := t.next } := by
  unfold filesysInit at h
  obtain ⟨⟨⟩, s1, h1, h⟩ := Prog.bind_eq_ok.1 h
  obtain ⟨⟨⟩, s2, h2, h⟩ := Prog.bind_eq_ok.1 h
  obtain ⟨root, s3, h3, h4⟩ := Prog.bind_eq_ok.1 h
  obtain ⟨hm, hopen, hinodes, hrest⟩ := mountPartition_mounted h1 h2
  have hnone : s2.findInode 0 = none := by
    unfold FS.findInode
    rw [hopen]
    rfl
  rw [inodeOpen_new hnone (by decide)] at h3
  cases h3
  exact ⟨s2, hm, hopen, hinodes, hrest, Prog.modify_eq_ok.1 h4⟩

/-- The state `filesys_init` leaves: a copy of an inode is the record of the root directory, or that
    record with another open count. -/
theorem Mounted.copy_cases {part : Partition} {t : FS} (h : Mounted part t)
    (hinodes : t.inodes = fun _ => none) {no : Nat} {i : Inode}
    (hc : ({ t.loadInode 0 with root_dir_inode := t.next } : FS).Copy no i) :
    no = 0 ∧ i.i_size = 64 ∧ ∀ k < 13, i.i_sectors k = (t.record 0).i_sectors k := by
  have hno : no = 0 := (h.allocated_iff no).1 hc.1
  refine ⟨hno, ?_⟩
  rcases hc.2 with ⟨p, hp, -⟩ | hi
  · have hp' : Function.update t.inodes t.next (some (t.opened 0)) p = some i := hp
    rw [hinodes] at hp'
    by_cases hpn : p = t.next
    · rw [hpn, Function.update_self] at hp'
      rw [← Option.some.inj hp']
      exact ⟨h.record_root.2.1, fun _ _ => rfl⟩
    · rw [Function.update_of_ne hpn] at hp'
      cases hp'
  · rw [hi, hno]
    exact ⟨h.record_root.2.1, fun _ _ => rfl⟩

theorem inv_filesysInit {part : Partition} {disk : Buf} {s : FS}
    (h : filesysInit part (FS.boot disk) = .ok ((), s)) : Inv s ∧ Covered s := by
  obtain ⟨t, hm, hopen, hinodes, -, rfl⟩ := filesysInit_eq h
  have hg := hm.geometry
  have hfirst : t.sb.data_start_lba ≠ 0 := by
    rw [hg.data_lba]
    omega
  have hrec := hm.record_root
  have hobj : ∀ p i, ({ t.loadInode 0 with root_dir_inode := t.next } : FS).inodes p = some i →
      p = t.next ∧ i = t.opened 0 := by
    intro p i hp
    have hp' : Function.update t.inodes t.next (some (t.opened 0)) p = some i := hp
    rw [hinodes] at hp'
    by_cases hpn : p = t.next
    · rw [hpn, Function.update_self] at hp'
      exact ⟨hpn, (Option.some.inj hp').symm⟩
    · rw [Function.update_of_ne hpn] at hp'
      cases hp'
  have hroot : ({ t.loadInode 0 with root_dir_inode := t.next } : FS).inodes t.next
      = some (t.opened 0) := by
    show Function.update t.inodes t.next (some (t.opened 0)) t.next = _
    exact Function.update_self _ _ _
  have hslot : ∀ no i k, ({ t.loadInode 0 with root_dir_inode := t.next } : FS).Copy no i →
      i.slot t.disk k = if k = 0 then t.sb.data_start_lba else 0 := fun no i k hc =>
    hm.slot_root (hm.copy_cases hinodes hc).2.2 k
  refine ⟨?_, ?_⟩
  · constructor
    case geometry => exact hg.congr rfl rfl rfl
    case table =>
      constructor
      case nodup =>
        show (t.next :: t.open_inodes).Nodup
        rw [hopen]
        exact List.nodup_singleton _
      case mem_iff =>
        intro p
        show p ∈ t.next :: t.open_inodes ↔ _
        rw [hopen, List.mem_singleton]
        constructor
        · rintro rfl
          exact ⟨_, hroot⟩
        · rintro ⟨i, hi⟩
          exact (hobj p i hi).1
      case fresh =>
        intro p i hp
        rw [(hobj p i hp).1]
        exact Nat.lt_succ_self _
      case one_object =>
        intro p q i j hp hq _
        rw [(hobj p i hp).1, (hobj q j hq).1]
      case counted =>
        intro p i hp
        rw [(hobj p i hp).2]
        exact Nat.one_pos
      case root => exact ⟨_, hroot, hrec.1⟩
    case open_allocated =>
      intro p i hp
      rw [(hobj p i hp).2]
      exact (hm.allocated_iff _).2 hrec.1
    case fits =>
      intro p i hp
      rw [(hobj p i hp).2]
      have hfits : (t.record 0).Fits := Inode.decode_fits _
      exact ⟨hfits.no, hfits.size, hfits.type, hfits.sectors⟩
    case synced =>
      intro p i hp
      rw [(hobj p i hp).2]
      have hno : (t.opened 0).i_no = 0 := hrec.1
      rw [hno]
      exact ⟨rfl, rfl, rfl, fun _ _ => rfl, Or.inl rfl⟩
    case recorded =>
      intro no ha
      rw [(hm.allocated_iff no).1 ha]
      exact hrec.1
    case sized =>
      intro no i hc
      rw [(hm.copy_cases hinodes hc).2.1]
      decide
    case exclusive =>
      constructor
      case used_of_holds =>
        rintro ⟨no, k⟩ b ⟨hb, i, hc, hk⟩
        have hk' := (hslot no i k hc).symm.trans hk
        refine (FS.used_congr rfl rfl b).2 ((hm.used_iff b).2 ?_)
        by_cases h0 : k = 0
        · rw [if_pos h0] at hk'
          exact hk'.symm
        · rw [if_neg h0] at hk'
          exact absurd hk'.symm hb
      case place_eq =>
        rintro ⟨no, k⟩ ⟨no', k'⟩ b ⟨hb, i, hc, hk⟩ ⟨-, j, hc', hk'⟩
        have hk1 := (hslot no i k hc).symm.trans hk
        have hk2 := (hslot no' j k' hc').symm.trans hk'
        have hz : ∀ m, (if m = 0 then t.sb.data_start_lba else 0) = b → m = 0 := by
          intro m hm
          by_contra hne
          rw [if_neg hne] at hm
          exact hb hm.symm
        have hno : no = 0 := (hm.copy_cases hinodes hc).1
        have hno' : no' = 0 := (hm.copy_cases hinodes hc').1
        rw [hno, hno', hz k hk1, hz k' hk2]
  · intro no i hc k hk
    have hsize := (hm.copy_cases hinodes hc).2.1
    have h0 : k = 0 := by omega
    have hblock := hslot no i k hc
    rw [Inode.slot_block (by omega), if_pos h0] at hblock
    show i.blocks t.disk k ≠ 0
    rw [hblock]
    exact hfirst

/-! ## `filesys_init` returns -/

theorem partitionFormat_run {part : Partition} (h0 : 0 < part.sec_cnt)
    (h1 : part.sec_cnt ≤ 4096 * 1280) (s : FS) : ∃ s', partitionFormat part s = .ok ((), s') := by
  have hl := layout_sbInit part
  have hbb : (sbInit part.sec_cnt part.start_lba).block_bitmap_sects = (part.sec_cnt + 4095) / 4096 :=
    rfl
  have hib := hl.inode_bitmap_sects
  have htab := hl.inode_table_sects
  unfold partitionFormat
  generalize sbInit part.sec_cnt part.start_lba = sb at hbb hib htab
  dsimp only
  rw [Prog.bind_of_ok (run_ideWrite _ _ Nat.one_pos _), Prog.bind_of_ok (a := ()) (sysMalloc_eq_ok.2 rfl),
    Prog.run_require_bind (c := SECTOR_SIZE * sb.block_bitmap_sects ≤ SECTOR_SIZE * sb.inode_table_sects)
      (Nat.mul_le_mul_left _ (by omega))]
  obtain ⟨r, hr⟩ := bitmapAlloc_one (b := bitmapInit ⟨SECTOR_SIZE * sb.block_bitmap_sects,
      Buf.zero.patch 0 (SECTOR_SIZE * sb.block_bitmap_sects) fun _ => 0xff⟩) (by
        show 0 < 8 * (512 * sb.block_bitmap_sects)
        omega) (bitmapRead_bitmapInit _ (by
          show 0 < 8 * (512 * sb.block_bitmap_sects)
          omega))
  rw [Prog.bind_of_ok (Prog.onLocal_eq_ok.2 ⟨hr, rfl⟩),
    Prog.bind_of_ok (run_ideWrite _ _ (by omega) _), Prog.bind_of_ok (run_ideWrite _ _ (by omega) _),
    Prog.bind_of_ok (run_ideWrite _ _ (by omega) _), Prog.bind_of_ok (run_ideWrite _ _ Nat.one_pos _)]
  exact ⟨_, rfl⟩

/-- A block bitmap that does not fit the buffer of `partition_format` is written past its end. -/
theorem partitionFormat_fits {part : Partition} {s s' : FS} (h : partitionFormat part s = .ok ((), s')) :
    part.sec_cnt ≤ 4096 * 1280 := by
  have hl := layout_sbInit part
  simp only [partitionFormat, Prog.bind_eq_ok, ideWrite_eq_ok, sysMalloc_eq_ok, sysFree_eq_ok,
    Prog.require_eq_ok, Prog.onLocal_eq_ok] at h
  obtain ⟨-, s1, -, -, s2, -, -, s3, ⟨hfits, -⟩, -⟩ := h
  have hsects : (sbInit part.sec_cnt part.start_lba).block_bitmap_sects = (part.sec_cnt + 4095) / 4096 :=
    rfl
  have htab := hl.inode_table_sects
  simp only [SECTOR_SIZE] at hfits
  omega

theorem mountPartition_run {part : Partition} {s s1 : FS} (hs1 : partitionFormat part s = .ok ((), s1)) :
    ∃ s2, mountPartition part s1 = .ok ((), s2) := by
  obtain ⟨-, hform, -⟩ := partitionFormat_formatted hs1
  have hl := layout_sbInit part
  generalize sbInit part.sec_cnt part.start_lba = sb at hform hl
  have hdec : SuperBlock.decode (Buf.zero.patch 0 (512 * 1)
      (s1.disk.from (512 * (part.start_lba + 1)))) = sb := by
    rw [← SuperBlock.decode_encode hl.fits]
    refine SuperBlock.decode_congr fun a h ha => ?_
    rw [Buf.patch_start _ _ _ (by omega)]
    exact hform.super a h (by omega)
  have hsects := hform.sects
  have hib := hl.inode_bitmap_sects
  unfold mountPartition
  rw [Prog.bind_of_ok (a := ()) (sysMalloc_eq_ok.2 rfl), Prog.bind_of_ok (a := ()) (sysMalloc_eq_ok.2 rfl),
    Prog.bind_of_ok (run_ideRead _ _ _ Nat.one_pos _)]
  dsimp only
  rw [hdec, Prog.bind_of_ok (a := ()) (sysFree_eq_ok.2 rfl), Prog.bind_of_ok (a := ()) (sysMalloc_eq_ok.2 rfl),
    Prog.bind_of_ok (run_ideRead _ _ _ hsects _), Prog.bind_of_ok (a := ()) (sysMalloc_eq_ok.2 rfl),
    Prog.bind_of_ok (run_ideRead _ _ _ (by omega) _)]
  exact ⟨_, rfl⟩

/-- `filesys_init` returns on every partition whose block bitmap fits the buffer of
    `partition_format`. -/
theorem filesysInit_run {part : Partition} (h0 : 0 < part.sec_cnt)
    (h1 : part.sec_cnt ≤ 4096 * 1280) (disk : Buf) :
    ∃ s, filesysInit part (FS.boot disk) = .ok ((), s) := by
  obtain ⟨s1, hs1⟩ := partitionFormat_run h0 h1 (FS.boot disk)
  obtain ⟨s2, hs2⟩ := mountPartition_run hs1
  obtain ⟨-, hopen, -⟩ := mountPartition_mounted hs1 hs2
  have hnone : s2.findInode 0 = none := by
    unfold FS.findInode
    rw [hopen]
    rfl
  unfold filesysInit
  rw [Prog.bind_of_ok hs1, Prog.bind_of_ok hs2, Prog.bind_of_ok (inodeOpen_new hnone (by decide))]
  exact ⟨_, rfl⟩

end RecoverOS
