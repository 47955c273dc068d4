import RecoverOS.Base.Run
import RecoverOS.Fs.Proofs.Mount

set_option autoImplicit false

/-! # The regions of a partition (`fs/fs.c`, `fs/inode.c`)

Where `sb_init` puts the parts of a file system, and which blocks `block_bitmap_alloc` hands out: the block
bitmap has a bit for every sector of the partition, rounded up to whole sectors of the bitmap, but its
first bit stands for the first sector after the inode table. -/

namespace RecoverOS

/-- The regions of a partition: first sector and number of sectors. -/
def regions (part : Partition) (sb : SuperBlock) : List (Nat × Nat) :=
  [(part.start_lba, 2), (sb.block_bitmap_lba, sb.block_bitmap_sects),
    (sb.inode_bitmap_lba, sb.inode_bitmap_sects), (sb.inode_table_lba, sb.inode_table_sects),
    (sb.data_start_lba, part.start_lba + part.sec_cnt - sb.data_start_lba)]

/-- A call on the block bitmap. -/
inductive BlockCall where
  | alloc
  | free (block_lba : Nat)

namespace BlockCall

/-- What the call does; the value it returns is dropped. -/
def run : BlockCall → Prog FS Unit
  | alloc => do let _ ← blockBitmapAlloc; pure ()
  | free block_lba => blockBitmapFree block_lba

/-- One call. -/
def Step (s : FS) (c : BlockCall) (s' : FS) : Prop := c.run s = .ok ((), s')

end BlockCall

/-- The partition is formatted and mounted. -/
def Mounts (part : Partition) (s0 s : FS) : Prop :=
  ∃ t, partitionFormat part s0 = .ok ((), t) ∧ mountPartition part t = .ok ((), s)

/-- What `block_bitmap_alloc` returns, unless it is `-1`, is a sector of the data region. -/
def AllocInside (part : Partition) (s : FS) : Prop :=
  ∀ r s', blockBitmapAlloc s = .ok (r, s') → r ≠ -1 →
    (s.sb.data_start_lba : Int) ≤ r ∧ r < part.start_lba + part.sec_cnt

/-- Some sector of the data region is free. -/
def FreeInside (part : Partition) (s : FS) : Prop :=
  ∃ b, s.sb.data_start_lba ≤ b ∧ b < part.start_lba + part.sec_cnt ∧ ¬ s.used b

/-- Every bit of the block bitmap is set. -/
def AllUsed (s : FS) : Prop := ∀ k < s.block_bitmap.size, bitmapRead s.block_bitmap k = true

section Alloc

variable {part : Partition} {s s' : FS}

theorem Layout.data_start {sb : SuperBlock} (hl : Layout part sb) :
    sb.data_start_lba = part.start_lba + 1283 + (part.sec_cnt + 4095) / 4096 := by
  have hbb := hl.block_bitmap_lba
  have hsects : sb.block_bitmap_sects = (part.sec_cnt + 4095) / 4096 := hl.sects
  have hib := hl.inode_bitmap_lba
  have htab := hl.inode_table_lba
  have hdata := hl.data_start_lba
  omega

theorem regions_disjoint {sb : SuperBlock} (hl : Layout part sb)
    (hfits : sb.data_start_lba ≤ part.start_lba + part.sec_cnt) :
    ((regions part sb).Pairwise fun r r' => r.1 + r.2 ≤ r'.1) ∧
      ∀ r ∈ regions part sb, part.start_lba ≤ r.1 ∧ r.1 + r.2 ≤ part.start_lba + part.sec_cnt := by
  have hbb := hl.block_bitmap_lba
  have hib := hl.inode_bitmap_lba
  have hibs := hl.inode_bitmap_sects
  have htab := hl.inode_table_lba
  have htabs := hl.inode_table_sects
  have hdata := hl.data_start_lba
  unfold regions
  constructor
  · simp only [List.pairwise_cons, List.mem_cons, List.not_mem_nil, or_false, forall_eq_or_imp,
      forall_eq, List.Pairwise.nil, false_imp_iff, implies_true, and_true]
    omega
  · simp only [List.mem_cons, List.not_mem_nil, or_false, forall_eq_or_imp, forall_eq]
    omega

/-- No call moves the regions. -/
theorem BlockCall.Step.frame {c : BlockCall} (h : c.Step s s') :
    s'.sb = s.sb ∧ s'.block_bitmap.bytes_len = s.block_bitmap.bytes_len := by
  cases c with
  | alloc =>
      obtain ⟨r, t, hrun, ht⟩ := Prog.bind_eq_ok.1 h
      obtain ⟨-, rfl⟩ := Prog.pure_eq_ok.1 ht
      rcases blockBitmapAlloc_cases s with ⟨-, halloc⟩ | ⟨k, btmp, -, halloc⟩
      · rw [halloc] at hrun
        cases hrun
        exact ⟨rfl, rfl⟩
      · rw [halloc] at hrun
        cases hrun
        exact ⟨rfl, rfl⟩
  | free b =>
      have hrun : blockBitmapFree b s = .ok ((), s') := h
      simp only [blockBitmapFree, writeBitmapSector, Prog.bind_eq_ok, Prog.get_eq_ok,
        Prog.require_eq_ok, Prog.modify_eq_ok, ideWrite_eq_ok] at hrun
      obtain ⟨_, _, ⟨rfl, rfl⟩, _, _, ⟨-, rfl⟩, _, _, rfl, _, _, ⟨-, rfl⟩, -, rfl⟩ := hrun
      exact ⟨rfl, rfl⟩

/-- The allocator takes the lowest bit that is clear. -/
theorem allocInside_iff_bit : AllocInside part s ↔
    AllUsed s ∨ ∃ k < s.block_bitmap.size, bitmapRead s.block_bitmap k = false ∧
      s.sb.data_start_lba + k < part.start_lba + part.sec_cnt := by
  rcases blockBitmapAlloc_cases s with ⟨hnone, hrun⟩ | ⟨k, btmp, hsome, hrun⟩
  · refine ⟨fun _ => .inl (bitmapAllocABit_eq_none.1 hnone), fun _ r s' h hr => ?_⟩
    rw [hrun] at h
    cases h
    exact absurd rfl hr
  · obtain ⟨hk, hclear, -, hlow⟩ := bitmapAllocABit_eq_some hsome
    constructor
    · intro hin
      obtain ⟨-, hlt⟩ := hin _ _ hrun (by omega)
      exact .inr ⟨k, hk, hclear, by omega⟩
    · rintro (hall | ⟨j, hj, hjclear, hlt⟩) r s' h hr
      · rw [hall k hk] at hclear
        cases hclear
      · rw [hrun] at h
        cases h
        -- no bit below `k` is clear
        have hkj : k ≤ j := by
          by_contra hgt
          rw [hlow j (by omega)] at hjclear
          cases hjclear
        omega

/-- After `mount_partition` one block is used, the first of the data region. -/
theorem Mounted.freeInside (h : Mounted part s)
    (hmore : (sbInit part.sec_cnt part.start_lba).data_start_lba + 1 < part.start_lba + part.sec_cnt) :
    FreeInside part s := by
  have hdata := h.layout.data_start
  have hdata0 := (layout_sbInit part).data_start
  refine ⟨s.sb.data_start_lba + 1, Nat.le_succ _, by omega, fun hused => ?_⟩
  exact absurd ((h.used_iff _).1 hused) (Nat.succ_ne_self _)

end Alloc

/-- What any calls on the block bitmap of a mounted partition leave. -/
theorem regions_after_run {part : Partition} {s0 s1 s2 s : FS} {cs : List BlockCall}
    (hformat : partitionFormat part s0 = .ok ((), s1)) (hmount : mountPartition part s1 = .ok ((), s2))
    (hmeta : (sbInit part.sec_cnt part.start_lba).data_start_lba ≤ part.start_lba + part.sec_cnt)
    (hrun : Run BlockCall.Step s2 cs s) :
    ((regions part s.sb).Pairwise fun r r' => r.1 + r.2 ≤ r'.1) ∧
    (∀ r ∈ regions part s.sb, part.start_lba ≤ r.1 ∧ r.1 + r.2 ≤ part.start_lba + part.sec_cnt) ∧
    (AllocInside part s ↔ FreeInside part s ∨ AllUsed s) := by
  obtain ⟨hm, -⟩ := mountPartition_mounted hformat hmount
  obtain ⟨hsb, hlen⟩ : s.sb = s2.sb ∧ s.block_bitmap.bytes_len = s2.block_bitmap.bytes_len := by
    refine hrun.invariant (I := fun s => s.sb = s2.sb ∧
      s.block_bitmap.bytes_len = s2.block_bitmap.bytes_len) ?_ ⟨rfl, rfl⟩
    intro t c t' hI hstep
    obtain ⟨hsb, hlen⟩ := hstep.frame
    exact ⟨hsb.trans hI.1, hlen.trans hI.2⟩
  have hdata := hm.layout.data_start
  have hdata0 := (layout_sbInit part).data_start
  have hsects : s2.sb.block_bitmap_sects = (part.sec_cnt + 4095) / 4096 := hm.layout.sects
  have hfits : s2.sb.data_start_lba ≤ part.start_lba + part.sec_cnt := by omega
  obtain ⟨hpair, hin⟩ := regions_disjoint hm.layout hfits
  rw [hsb]
  refine ⟨hpair, hin, ?_⟩
  have hsize : s.block_bitmap.size = 4096 * s2.sb.block_bitmap_sects := by
    rw [Bitmap.size, hlen, hm.block_len]
    omega
  rw [allocInside_iff_bit, or_comm, hsb]
  refine or_congr_left ?_
  unfold FreeInside FS.used
  rw [hsb]
  constructor
  · rintro ⟨k, hk, hclear, hlt⟩
    refine ⟨s2.sb.data_start_lba + k, Nat.le_add_right _ _, hlt, ?_⟩
    rintro ⟨-, -, hset⟩
    rw [Nat.add_sub_cancel_left, hclear] at hset
    cases hset
  · rintro ⟨b, hge, hlt, hfree⟩
    have hk : b - s2.sb.data_start_lba < s.block_bitmap.size := by omega
    refine ⟨b - s2.sb.data_start_lba, hk, ?_, by omega⟩
    by_contra hset
    exact hfree ⟨hge, by omega, by simpa using hset⟩

/-- A partition with room for the metadata can be formatted and mounted if and only if its block bitmap
    fits the buffer of `partition_format`. Then its regions are disjoint, and after any calls on the
    block bitmap the next `block_bitmap_alloc` stays in the data region if and only if a sector of it is
    free or no bit is clear. -/
theorem alloc_inside_iff {part : Partition} (s0 : FS)
    (hmeta : (sbInit part.sec_cnt part.start_lba).data_start_lba ≤ part.start_lba + part.sec_cnt) :
    ((∃ s, Mounts part s0 s) ↔ part.sec_cnt ≤ 4096 * 1280) ∧
    ∀ s1 cs s, Mounts part s0 s1 → Run BlockCall.Step s1 cs s →
      ((regions part s.sb).Pairwise fun r r' => r.1 + r.2 ≤ r'.1) ∧
      (∀ r ∈ regions part s.sb, part.start_lba ≤ r.1 ∧ r.1 + r.2 ≤ part.start_lba + part.sec_cnt) ∧
      (AllocInside part s ↔ FreeInside part s ∨ AllUsed s) := by
  have hdata := (layout_sbInit part).data_start
  refine ⟨⟨?_, fun hle => ?_⟩, ?_⟩
  · rintro ⟨s, t, hformat, -⟩
    exact partitionFormat_fits hformat
  · obtain ⟨t, hformat⟩ := partitionFormat_run (by omega) hle s0
    obtain ⟨s, hmount⟩ := mountPartition_run hformat
    exact ⟨s, t, hformat, hmount⟩
  · rintro s1 cs s ⟨t, hformat, hmount⟩ hrun
    exact regions_after_run hformat hmount hmeta hrun

/-- A partition with two sectors after the metadata. -/
theorem alloc_inside_1286 : ∃ (part : Partition) (s : FS), part.sec_cnt = 1286 ∧
    Mounts part (FS.boot Buf.zero) s ∧ AllocInside part s := by
  have hmeta : (sbInit 1286 0).data_start_lba ≤ 0 + 1286 := by decide
  obtain ⟨hmounts, hinside⟩ := @alloc_inside_iff ⟨0, 1286, by decide⟩ (FS.boot Buf.zero) hmeta
  obtain ⟨s, hs⟩ := hmounts.2 (by decide)
  refine ⟨_, s, rfl, hs, (hinside s [] s hs .nil).2.2.2 (.inl ?_)⟩
  obtain ⟨t, hformat, hmount⟩ := hs
  exact (mountPartition_mounted hformat hmount).1.freeInside (by decide)

/-- On a partition with one sector after the metadata, which the root directory takes, the first call of
    `block_bitmap_alloc` returns the sector after the partition. -/
theorem not_alloc_inside_1285 : ∃ (part : Partition) (s s' : FS),
    part.start_lba = 0 ∧ part.sec_cnt = 1285 ∧
    (sbInit part.sec_cnt part.start_lba).data_start_lba ≤ part.start_lba + part.sec_cnt ∧
    Mounts part (FS.boot Buf.zero) s ∧ blockBitmapAlloc s = .ok (1285, s') ∧ ¬ AllocInside part s := by
  let part : Partition := ⟨0, 1285, by decide⟩
  obtain ⟨t, hformat⟩ := @partitionFormat_run part (by decide) (by decide) (FS.boot Buf.zero)
  obtain ⟨s, hmount⟩ := mountPartition_run hformat
  obtain ⟨hm, -⟩ := mountPartition_mounted hformat hmount
  have hdata : s.sb.data_start_lba = 0 + 1283 + (1285 + 4095) / 4096 := hm.layout.data_start
  have hsects : s.sb.block_bitmap_sects = (1285 + 4095) / 4096 := hm.layout.sects
  have hsize : s.block_bitmap.size = 4096 := by
    rw [Bitmap.size, hm.block_len]
    omega
  rcases blockBitmapAlloc_cases s with ⟨hnone, -⟩ | ⟨k, btmp, hsome, hrun⟩
  · have hset := bitmapAllocABit_eq_none.1 hnone 1 (by omega)
    rw [hm.block_bits 1 (by omega)] at hset
    exact absurd (of_decide_eq_true hset) Nat.one_ne_zero
  · obtain ⟨hk, hclear, -, hlow⟩ := bitmapAllocABit_eq_some hsome
    -- bit 0 is the root directory's, and bit 1 is clear
    have hk0 : k ≠ 0 := by
      rintro rfl
      rw [hm.block_bits 0 (by omega)] at hclear
      exact absurd rfl (of_decide_eq_false hclear)
    have hk1 : ¬ 1 < k := fun hlt => by
      have hset := hlow 1 hlt
      rw [hm.block_bits 1 (by omega)] at hset
      exact absurd (of_decide_eq_true hset) Nat.one_ne_zero
    have hr : ((s.sb.data_start_lba + k : Nat) : Int) = 1285 := by omega
    rw [hr] at hrun
    refine ⟨part, s, _, rfl, rfl, by decide, ⟨t, hformat, hmount⟩, hrun, fun hin => ?_⟩
    obtain ⟨-, hlt⟩ := hin _ _ hrun (by decide)
    exact absurd hlt (by decide)

end RecoverOS
