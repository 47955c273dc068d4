import RecoverOS.Fs.Proofs.WriteLoop

set_option autoImplicit false

/-! # `inode_write` keeps the invariant

The three phases of a write one after the other: the indirect block (`allocIndirect`), the loop
(`Grown`), and the end of the call, which stores the inode, its record and its indirect block
(`writeBack`). A call that fails stops after the first or the second. -/

namespace RecoverOS

/-! ## `inode_sync` -/

namespace FS

/-- The state once the record of `i` is stored in the inode table. -/
def storeRecord (s : FS) (i : Inode) : FS :=
  { s with disk := s.disk.patch (s.recordAddr i.i_no) 160 i.encode }

/-- The state once an object is stored through a pointer. -/
def setObject (s : FS) (p : Nat) (i : Inode) : FS :=
  { s with inodes := Function.update s.inodes p (some i) }

variable {s : FS} {i : Inode}

theorem storeRecord_disk {a : Nat} (h : a < s.recordAddr i.i_no ∨ s.recordAddr i.i_no + 160 ≤ a) :
    (s.storeRecord i).disk a = s.disk a :=
  Buf.patch_outside _ _ h

theorem record_storeRecord : (s.storeRecord i).record i.i_no = Inode.decode i.encode := by
  refine Inode.decode_congr fun a _ ha => ?_
  exact Buf.from_patch_same _ _ _ _ (by
    have ha' : a < 0 + 160 := ha
    omega)

/-- The record just stored reads back as the inode, up to the open count. -/
theorem synced_storeRecord (h : i.Fits) : i.Synced ((s.storeRecord i).record i.i_no) := by
  rw [record_storeRecord]
  exact ⟨Inode.decode_encode_i_no h, Inode.decode_encode_i_size h, Inode.decode_encode_f_type h,
    fun k hk => Inode.decode_encode_i_sectors h (by omega),
    Or.inl (Inode.decode_encode_i_sectors h (by decide))⟩

theorem storeRecord_indirect (h : i.Fits) :
    ((s.storeRecord i).record i.i_no).i_sectors 12 = i.i_sectors 12 := by
  rw [record_storeRecord]
  exact Inode.decode_encode_i_sectors h (by decide)

/-- Two records are 160 bytes apart. -/
theorem recordAddr_apart {no no' : Nat} (hne : no ≠ no') :
    s.recordAddr no + 160 ≤ s.recordAddr no' ∨ s.recordAddr no' + 160 ≤ s.recordAddr no := by
  unfold recordAddr
  omega

/-- A sector in use lies above the inode table. -/
theorem used_above (g : Geometry s) {b no : Nat} (hb : s.used b) (hno : no < 4096) :
    s.recordAddr no + 160 ≤ 512 * b := by
  have h := recordAddr_lt g hno
  have h' := hb.1
  omega

end FS

theorem inodeSync_run {s : FS} {p : Nat} {i : Inode} (hp : s.inodes p = some i)
    (hno : i.i_no < 4096) : inodeSync p s = .ok ((), s.storeRecord i) := by
  have hloc : inodeLocate i.i_no s
      = .ok (⟨s.sb.inode_table_lba + 160 * i.i_no / 512, 160 * i.i_no % 512⟩, s) := by
    unfold inodeLocate
    rw [Prog.run_assert_bind (c := i.i_no < MAX_FILES_PER_PART) hno]
    rfl
  unfold inodeSync
  rw [Prog.bind_of_ok (run_inodeAt hp), Prog.bind_of_ok hloc,
    Prog.bind_of_ok (a := ()) (t := { s with live := s.live + 1 }) rfl,
    Prog.bind_of_ok (run_ideRead _ 0 Buf.zero Nat.two_pos _),
    Prog.bind_of_ok (run_ideWrite _ _ Nat.two_pos _)]
  have hbytes : s.disk.patch (512 * (s.sb.inode_table_lba + 160 * i.i_no / 512)) (512 * 2)
      ((Buf.zero.patch 0 (512 * 2)
        (s.disk.from (512 * (s.sb.inode_table_lba + 160 * i.i_no / 512)))).patch
          (160 * i.i_no % 512) 160 i.encode) = (s.storeRecord i).disk := by
    have hread : ∀ k < 512 * 2, ((Buf.zero.patch 0 (512 * 2)
        (s.disk.from (512 * (s.sb.inode_table_lba + 160 * i.i_no / 512)))).patch
          (160 * i.i_no % 512) 160 i.encode) k
        = ((s.disk.from (512 * (s.sb.inode_table_lba + 160 * i.i_no / 512))).patch
          (160 * i.i_no % 512) 160 i.encode) k :=
      fun k hk => Buf.patch_congr_at (Buf.patch_start _ _ _ hk) _ _ _
    rw [Buf.patch_congr _ _ _ hread, Buf.patch_patch_from _ _ (by omega)]
    unfold FS.storeRecord FS.recordAddr
    congr 1
    omega
  rw [sysFree_eq_ok]
  unfold FS.storeRecord at hbytes ⊢
  simp only [FS.mk.injEq, Nat.add_sub_cancel, and_true]
  exact hbytes.symm

/-! ## The indirect block -/

namespace Inode

/-- The inode with indirect block `b`. -/
def withIndirect (i : Inode) (b : Nat) : Inode :=
  { i with i_sectors := Function.update i.i_sectors 12 b }

@[simp] theorem withIndirect_12 (i : Inode) (b : Nat) : (i.withIndirect b).i_sectors 12 = b := by
  unfold withIndirect
  exact Function.update_self 12 b i.i_sectors

theorem withIndirect_of_ne (i : Inode) (b : Nat) {k : Nat} (hk : k ≠ 12) :
    (i.withIndirect b).i_sectors k = i.i_sectors k := by
  unfold withIndirect
  exact Function.update_of_ne hk b i.i_sectors

end Inode

namespace FS

/-- The state once block `data_start_lba + k` was taken as the indirect block of the inode at `p`. -/
def linkIndirect (s : FS) (p : Nat) (i : Inode) (k : Nat) : FS :=
  ((s.takeBlock k).writeSector (s.sb.data_start_lba + k) Buf.zero).setObject p
    (i.withIndirect (s.sb.data_start_lba + k))

end FS

/-- The three outcomes of the first step: no indirect block is needed, there is none left, or one was
    taken and cleared. -/
theorem allocIndirect_cases {s : FS} {p : Nat} {i : Inode} (g : Geometry s)
    (hp : s.inodes p = some i) (last : Nat) :
    ((i.i_sectors 12 ≠ 0 ∨ last ≤ 6144) ∧ allocIndirect p last s = .ok (true, s)) ∨
    (i.i_sectors 12 = 0 ∧ 6144 < last ∧ bitmapAllocABit s.block_bitmap = none ∧
      allocIndirect p last s = .ok (false, s)) ∨
    ∃ k btmp, i.i_sectors 12 = 0 ∧ 6144 < last ∧
      bitmapAllocABit s.block_bitmap = some (k, btmp) ∧
      allocIndirect p last s = .ok (true, s.linkIndirect p i k) := by
  unfold allocIndirect
  rw [Prog.bind_of_ok (run_inodeAt hp)]
  by_cases hneed : i.i_sectors 12 = 0 ∧ last > 6144
  · right
    rw [if_pos (c := i.i_sectors NDIRECT = 0 ∧ last > BLOCK_SIZE * NDIRECT) hneed]
    rcases blockBitmapAlloc_cases s with ⟨hnone, hrun⟩ | ⟨k, btmp, hsome, hrun⟩
    · left
      refine ⟨hneed.1, hneed.2, hnone, ?_⟩
      rw [Prog.bind_of_ok hrun, toInt32_neg_one]
      rfl
    · right
      refine ⟨k, btmp, hneed.1, hneed.2, hsome, ?_⟩
      obtain ⟨h1, h2, h3⟩ := toInt32_block g (bitmapAllocABit_eq_some hsome).1
      rw [Prog.bind_of_ok hrun, h1]
      simp only [if_neg h2, h3]
      rw [Prog.bind_of_ok (run_ideWrite _ _ Nat.one_pos _)]
      rfl
  · left
    rw [if_neg (c := i.i_sectors NDIRECT = 0 ∧ last > BLOCK_SIZE * NDIRECT) hneed]
    exact ⟨by omega, rfl⟩

section LinkIndirect

variable {s : FS} {p k : Nat} {i : Inode} {btmp : Bitmap}

theorem linkIndirect_disk_eq : (s.linkIndirect p i k).disk
    = (s.takeBlock k).disk.patch (512 * (s.sb.data_start_lba + k)) 512 Buf.zero := rfl

/-- Above the block bitmap nothing but the new block changed. -/
theorem linkIndirect_disk (g : Geometry s) (hk : k < s.block_bitmap.size) {a : Nat}
    (ha : 512 * s.sb.inode_bitmap_lba ≤ a)
    (hout : a < 512 * (s.sb.data_start_lba + k) ∨ 512 * (s.sb.data_start_lba + k) + 512 ≤ a) :
    (s.linkIndirect p i k).disk a = s.disk a := by
  rw [linkIndirect_disk_eq, Buf.patch_outside _ _ hout, FS.takeBlock_disk g hk ha]

theorem linkIndirect_zero {j : Nat} (hj : j < 512) :
    (s.linkIndirect p i k).disk (512 * (s.sb.data_start_lba + k) + j) = 0 := by
  rw [linkIndirect_disk_eq, Buf.patch_inside _ _ (by omega) (by omega), Buf.zero_apply]

theorem linkIndirect_used (hk : k < s.block_bitmap.size) {b : Nat} :
    (s.linkIndirect p i k).used b ↔ s.used b ∨ b = s.sb.data_start_lba + k := by
  have h : (s.linkIndirect p i k).used b ↔ (s.takeBlock k).used b := FS.used_congr rfl rfl b
  rw [h, FS.used_takeBlock hk]

/-- A sector of the record region or in use before is untouched by taking a fresh block. -/
theorem linkIndirect_agree (g : Geometry s)
    (halloc : bitmapAllocABit s.block_bitmap = some (k, btmp)) {b : Nat} (hb : s.used b) :
    Buf.Agree (s.linkIndirect p i k).disk s.disk (512 * b) 512 := by
  obtain ⟨hk, hclear, -, -⟩ := bitmapAllocABit_eq_some halloc
  have hne : b ≠ s.sb.data_start_lba + k := by
    rintro rfl
    exact FS.not_used_of_clear hclear hb
  intro a h1 h2
  have hdata := hb.1
  have hge := g.data_lba
  have hge' := g.table_lba
  exact linkIndirect_disk g hk (by omega) (by omega)

theorem linkIndirect_records (hinv : Inv s)
    (halloc : bitmapAllocABit s.block_bitmap = some (k, btmp)) {no : Nat} (hno : no < 4096) :
    Buf.Agree (s.linkIndirect p i k).disk s.disk (s.recordAddr no) 160 := by
  intro a h1 h2
  have hk := (bitmapAllocABit_eq_some halloc).1
  have hge := FS.recordAddr_ge hinv.geometry no
  have hlt := FS.recordAddr_lt hinv.geometry hno
  exact linkIndirect_disk hinv.geometry hk (by omega) (by omega)

theorem changesInode_linkIndirect (hinv : Inv s) (hp : s.inodes p = some i)
    (halloc : bitmapAllocABit s.block_bitmap = some (k, btmp)) :
    ChangesInode s (s.linkIndirect p i k) p i (i.withIndirect (s.sb.data_start_lba + k)) where
  object := hp
  no := rfl
  sb := rfl
  inode_bitmap := rfl
  inodes := rfl
  open_inodes := rfl
  next := rfl
  root := rfl
  records _ hno _ := linkIndirect_records hinv halloc hno
  indirect _ _ hc _ h12 :=
    linkIndirect_agree hinv.geometry halloc (hinv.used_indirect hc h12)

/-- The new indirect block reads as zeros, so the file blocks behind it stay without a block. -/
theorem linkIndirect_blocks (hinv : Inv s) (h12 : i.i_sectors 12 = 0) (j : Nat) :
    (i.withIndirect (s.sb.data_start_lba + k)).blocks (s.linkIndirect p i k).disk j
      = i.blocks s.disk j := by
  by_cases hj : j < 12
  · rw [Inode.blocks_direct hj, Inode.blocks_direct hj]
    exact i.withIndirect_of_ne _ (by omega)
  · rw [Inode.blocks_no_indirect h12 (by omega)]
    by_cases hj' : j < 140
    · have hne : s.sb.data_start_lba + k ≠ 0 := by
        rw [hinv.geometry.data_lba]
        omega
      rw [Inode.blocks_indirect (by rwa [Inode.withIndirect_12]) (by omega) hj',
        Inode.withIndirect_12, ← Buf.word_zero (j - 12)]
      refine Buf.word_congr fun a h1 h2 => ?_
      exact linkIndirect_zero (by omega)
    · exact Inode.blocks_beyond (by omega)

theorem inv_linkIndirect (hinv : Inv s) (hp : s.inodes p = some i) (h12 : i.i_sectors 12 = 0)
    (halloc : bitmapAllocABit s.block_bitmap = some (k, btmp)) : Inv (s.linkIndirect p i k) := by
  have hch := changesInode_linkIndirect hinv hp halloc
  obtain ⟨hk, hclear, -, -⟩ := bitmapAllocABit_eq_some halloc
  have hsmall := hinv.geometry.small
  have hfits := hinv.fits p i hp
  have hsize := hinv.size_le hp
  have hrec : (s.linkIndirect p i k).record i.i_no = s.record i.i_no := by
    refine FS.record_congr hch.sb fun a h1 h2 => ?_
    have hge := FS.recordAddr_ge hinv.geometry i.i_no
    have hlt := FS.recordAddr_lt hinv.geometry (hinv.no_lt hp)
    exact linkIndirect_disk hinv.geometry hk (by omega) (by omega)
  have hold := hinv.synced p i hp
  have hsync : (i.withIndirect (s.sb.data_start_lba + k)).Synced
      ((s.linkIndirect p i k).record i.i_no) := by
    rw [hrec]
    refine ⟨hold.no, hold.size, hold.type, fun j hj => ?_, Or.inr ?_⟩
    · rw [hold.direct j hj]
      exact (i.withIndirect_of_ne _ (by omega)).symm
    · rcases hold.indirect with h | h
      · exact h.trans h12
      · exact h
  refine hch.inv hinv rfl (hinv.table.counted p i hp) ⟨hfits.no, hfits.size, hfits.type, ?_⟩ hsync
    hsize ?_
  · intro j hj
    by_cases hj12 : j = 12
    · rw [hj12, Inode.withIndirect_12]
      omega
    · rw [i.withIndirect_of_ne _ hj12]
      exact hfits.sectors j hj
  · refine hinv.exclusive.extend
      (fun a b => a = (i.i_no, 140) ∧ b = s.sb.data_start_lba + k) ?_ ?_ ?_ ?_ ?_
    · intro a b hab
      rcases hch.holds_cases hinv.table hsync hab with h | ⟨hno, hb, hslot⟩
      · exact Or.inl h
      · by_cases h140 : a.2 = 140
        · right
          rw [h140, Inode.slot_indirect, Inode.withIndirect_12] at hslot
          exact ⟨Prod.ext hno h140, hslot.symm⟩
        · have hlt : a.2 < 140 := by
            by_contra hge
            rw [Inode.slot_beyond (by omega)] at hslot
            exact hb hslot.symm
          rw [Inode.slot_block hlt, linkIndirect_blocks hinv h12, ← Inode.slot_block hlt] at hslot
          left
          rw [← hslot] at hb ⊢
          exact ⟨hb, i, by rw [hno]; exact hinv.copy hp, rfl⟩
    · rintro a c b ⟨-, rfl⟩ hh
      exact FS.not_used_of_clear hclear (hinv.exclusive.used_of_holds hh)
    · rintro a c b ⟨rfl, -⟩ ⟨rfl, -⟩
      rfl
    · exact fun b hb => (linkIndirect_used hk).2 (Or.inl hb)
    · rintro a b ⟨-, rfl⟩
      exact (linkIndirect_used hk).2 (Or.inr rfl)

end LinkIndirect

/-! ## The loop -/

/-- Sectors of two different blocks do not overlap. -/
theorem sector_apart {a b c : Nat} (hne : b ≠ c) (h1 : 512 * b ≤ a) (h2 : a < 512 * b + 512) :
    a < 512 * c ∨ 512 * c + 512 ≤ a := by
  omega

section Loop

variable {s s' : FS} {i : Inode} {all' : Nat → Nat} {lo hi no : Nat}

/-- An entry of a grown array is a block of the inode itself, or was not used. -/
theorem Grown.entry (hg : Grown lo hi s (i.blocks s.disk) s' all') {k : Nat} (hk : all' k ≠ 0) :
    (i.blocks s.disk k ≠ 0 ∧ all' k = i.blocks s.disk k) ∨ ¬ s.used (all' k) := by
  by_cases h0 : i.blocks s.disk k = 0
  · exact Or.inr (hg.fresh k h0 hk)
  · exact Or.inl ⟨h0, hg.kept k h0⟩

/-- An entry of a grown array is no indirect block. -/
theorem Grown.entry_ne_indirect (hinv : Inv s) (hc : s.Copy no i)
    (hg : Grown lo hi s (i.blocks s.disk) s' all') {no' : Nat} {j : Inode} (hj : s.Copy no' j)
    (h12 : j.i_sectors 12 ≠ 0) {k : Nat} (hk : all' k ≠ 0) : j.i_sectors 12 ≠ all' k := by
  intro heq
  rcases hg.entry hk with ⟨h0, hkept⟩ | hfresh
  · have hlt : k < 140 := by
      by_contra hge
      exact h0 (Inode.blocks_beyond (by omega))
    rw [← @Inode.slot_indirect s.disk] at h12 heq
    rw [hkept, ← Inode.slot_block hlt] at heq
    have := (hinv.slot_inj hj hc h12 heq).2
    omega
  · rw [← heq] at hfresh
    exact hfresh (hinv.used_indirect hj h12)

/-- The loop leaves the inodes alone, in memory and on the disk. -/
theorem Grown.sameInodes (hinv : Inv s) (hc : s.Copy no i)
    (hg : Grown lo hi s (i.blocks s.disk) s' all') : SameInodes s s' where
  sb := hg.sb_eq
  inode_bitmap := by rw [hg.frame]
  inodes := hg.inodes_eq
  open_inodes := by rw [hg.frame]
  next := by rw [hg.frame]
  root := by rw [hg.frame]
  records no' hno a h1 h2 := by
    have hge := FS.recordAddr_ge hinv.geometry no'
    have hlt := FS.recordAddr_lt hinv.geometry hno
    refine hg.disk a (by omega) fun k _ _ hk => ?_
    have hdata := (((hinv.owned hc).grow hg).used k hk).1
    rw [hg.sb_eq] at hdata
    omega
  indirect no' j hj h12 a h1 h2 := by
    have hdata := (hinv.used_indirect hj h12).1
    have hge := hinv.geometry.data_lba
    have hge' := hinv.geometry.table_lba
    refine hg.disk a (by omega) fun k _ _ hk => ?_
    exact sector_apart (hg.entry_ne_indirect hinv hc hj h12 hk) h1 h2

/-- A loop that ran out of blocks leaves the invariant. -/
theorem Grown.inv (hinv : Inv s) (hc : s.Copy no i)
    (hg : Grown lo hi s (i.blocks s.disk) s' all') : Inv s' :=
  (hg.sameInodes hinv hc).inv hinv hg.len fun _ => hg.used_mono

end Loop

/-! ## The end of the call -/

/-- The inode at the end of a write that ends at offset `last`. -/
def writtenInode (i : Inode) (all : Nat → Nat) (last : Nat) : Inode :=
  { i with
    i_size := if last > i.i_size then last else i.i_size
    i_sectors := fun k => if k < 12 then all k else i.i_sectors k }

theorem writtenInode_direct {i : Inode} {all : Nat → Nat} {last k : Nat} (hk : k < 12) :
    (writtenInode i all last).i_sectors k = all k := if_pos hk

theorem writtenInode_indirect {i : Inode} {all : Nat → Nat} {last : Nat} :
    (writtenInode i all last).i_sectors 12 = i.i_sectors 12 := by
  simp only [writtenInode, lt_irrefl, if_false]

namespace FS

/-- The state once the inode at `p`, its record and its indirect block are stored. -/
def commit (s : FS) (p : Nat) (i : Inode) (all : Nat → Nat) (last : Nat) : FS :=
  let i' := writtenInode i all last
  let s' := (s.setObject p i').storeRecord i'
  if i.i_sectors 12 ≠ 0 then s'.writeSector (i.i_sectors 12) (Buf.ofWords fun k => all (12 + k))
  else s'

end FS

theorem writeBack_run {s : FS} {p : Nat} {i : Inode} (hp : s.inodes p = some i)
    (hno : i.i_no < 4096) (all : Nat → Nat) (last : Nat) :
    writeBack p all last s = .ok ((), s.commit p i all last) := by
  have hp' : (s.setObject p (writtenInode i all last)).inodes p = some (writtenInode i all last) :=
    Function.update_self _ _ _
  unfold writeBack
  rw [Prog.bind_of_ok (run_inodeAt hp)]
  dsimp only
  rw [Prog.bind_of_ok (a := ()) (t := s.setObject p (writtenInode i all last)) rfl,
    Prog.bind_of_ok (inodeSync_run hp' hno)]
  unfold FS.commit
  simp only [lt_irrefl, if_false]
  by_cases h12 : i.i_sectors 12 ≠ 0
  · rw [if_pos (c := i.i_sectors NDIRECT ≠ 0) h12, if_pos h12]
    exact run_ideWrite _ _ Nat.one_pos _
  · rw [if_neg (c := i.i_sectors NDIRECT ≠ 0) h12, if_neg h12]
    rfl

/-! ### What is on the disk then -/

/-- The array a write ends with, against the inode it started from. -/
structure Complete (s : FS) (i : Inode) (all : Nat → Nat) : Prop where
  small : ∀ k, all k < 2 ^ 31
  beyond : ∀ k, 140 ≤ k → all k = 0
  no_indirect : i.i_sectors 12 = 0 → ∀ k, 12 ≤ k → all k = 0
  entry : ∀ k, all k ≠ 0 → (i.blocks s.disk k ≠ 0 ∧ all k = i.blocks s.disk k) ∨
    (s.used (all k) ∧ ∀ a, ¬ s.holds a (all k))
  inj : ∀ k k', all k ≠ 0 → all k = all k' → k = k'

section Commit

variable {s : FS} {p last : Nat} {i : Inode} {all : Nat → Nat}

@[simp] theorem commit_sb : (s.commit p i all last).sb = s.sb := by
  unfold FS.commit
  split <;> rfl

@[simp] theorem commit_block_bitmap : (s.commit p i all last).block_bitmap = s.block_bitmap := by
  unfold FS.commit
  split <;> rfl

theorem commit_used (b : Nat) : (s.commit p i all last).used b ↔ s.used b :=
  FS.used_congr commit_sb commit_block_bitmap b

/-- The bytes outside the record and the indirect block are those from before. -/
theorem commit_disk {a : Nat}
    (hrec : a < s.recordAddr i.i_no ∨ s.recordAddr i.i_no + 160 ≤ a)
    (hind : i.i_sectors 12 ≠ 0 → a < 512 * i.i_sectors 12 ∨ 512 * i.i_sectors 12 + 512 ≤ a) :
    (s.commit p i all last).disk a = s.disk a := by
  have hstore : (((s.setObject p (writtenInode i all last)).storeRecord
      (writtenInode i all last))).disk a = s.disk a := FS.storeRecord_disk hrec
  unfold FS.commit
  dsimp only
  by_cases h12 : i.i_sectors 12 ≠ 0
  · rw [if_pos h12]
    exact (Buf.patch_outside _ _ (hind h12)).trans hstore
  · rw [if_neg h12]
    exact hstore

/-- The indirect block holds the array from its 12th entry on. -/
theorem commit_indirect (h12 : i.i_sectors 12 ≠ 0) {j : Nat} (hj : j < 512) :
    (s.commit p i all last).disk (512 * i.i_sectors 12 + j)
      = Buf.ofWords (fun k => all (12 + k)) j := by
  unfold FS.commit
  dsimp only
  rw [if_pos h12]
  refine (Buf.patch_inside _ _ (by omega) (by omega)).trans ?_
  rw [Nat.add_sub_cancel_left]

variable (p last) in
/-- The inode is left with the blocks of the array. -/
theorem commit_blocks (hall : Complete s i all) (k : Nat) :
    (writtenInode i all last).blocks (s.commit p i all last).disk k = all k := by
  by_cases hk : k < 12
  · rw [Inode.blocks_direct hk, writtenInode_direct hk]
  · by_cases h12 : i.i_sectors 12 = 0
    · rw [Inode.blocks_no_indirect (writtenInode_indirect.trans h12) (by omega),
        hall.no_indirect h12 k (by omega)]
    · by_cases hk' : k < 140
      · rw [Inode.blocks_indirect (by rwa [writtenInode_indirect]) (by omega) hk',
          writtenInode_indirect]
        have hsmall := hall.small k
        have hword : (Buf.from (s.commit p i all last).disk (512 * i.i_sectors 12)).word (k - 12)
            = all (12 + (k - 12)) % 2 ^ 32 := by
          refine Buf.word_of_ofWords (w := fun j => all (12 + j)) fun a h1 h2 => ?_
          exact commit_indirect h12 (by omega)
        rw [hword, show 12 + (k - 12) = k by omega, Nat.mod_eq_of_lt (by omega)]
      · rw [Inode.blocks_beyond (by omega), hall.beyond k (by omega)]

theorem writtenInode_slot (hall : Complete s i all) {k : Nat} :
    (writtenInode i all last).slot (s.commit p i all last).disk k
      = if k = 140 then i.i_sectors 12 else all k := by
  by_cases hk : k = 140
  · subst hk
    rw [Inode.slot_indirect, if_pos rfl, writtenInode_indirect]
  · rw [if_neg hk, ← commit_blocks p last hall k]
    exact if_neg hk

variable (all last) in
/-- The record and the indirect block of the inode are all that changes of the inodes on the disk. -/
theorem changesInode_commit (hinv : Inv s) (hp : s.inodes p = some i) :
    ChangesInode s (s.commit p i all last) p i (writtenInode i all last) where
  object := hp
  no := rfl
  sb := commit_sb
  inode_bitmap := by unfold FS.commit; split <;> rfl
  inodes := by unfold FS.commit; split <;> rfl
  open_inodes := by unfold FS.commit; split <;> rfl
  next := by unfold FS.commit; split <;> rfl
  root := by unfold FS.commit; split <;> rfl
  records no hno hne a h1 h2 := by
    have hapart := FS.recordAddr_apart (s := s) hne
    refine commit_disk (by omega) fun h12 => Or.inl ?_
    have habove := FS.used_above hinv.geometry (hinv.used_indirect (hinv.copy hp) h12) hno
    omega
  indirect no j hc hne h12 a h1 h2 := by
    have habove := FS.used_above hinv.geometry (hinv.used_indirect hc h12) (hinv.no_lt hp)
    refine commit_disk (by omega) fun hi12 => ?_
    refine sector_apart ?_ h1 h2
    intro heq
    have hslot : j.slot s.disk 140 ≠ 0 := by rwa [Inode.slot_indirect]
    exact hne (hinv.slot_inj hc (hinv.copy hp) hslot
      (by rw [Inode.slot_indirect, Inode.slot_indirect, heq])).1

theorem writtenInode_fits (hinv : Inv s) (hp : s.inodes p = some i) (hall : Complete s i all)
    (hlast : last ≤ 71680) : (writtenInode i all last).Fits := by
  have hfits := hinv.fits p i hp
  refine ⟨hfits.no, ?_, hfits.type, fun k hk => ?_⟩
  · have hsize := hfits.size
    simp only [writtenInode]
    split <;> omega
  · have hsmall := hall.small k
    have hsec := hfits.sectors k hk
    simp only [writtenInode]
    split <;> omega

/-- What is written to the indirect block leaves the record alone. -/
theorem commit_record (hinv : Inv s) (hp : s.inodes p = some i) :
    (s.commit p i all last).record i.i_no
      = ((s.setObject p (writtenInode i all last)).storeRecord (writtenInode i all last)).record
        i.i_no := by
  have hsb : (s.commit p i all last).sb = ((s.setObject p (writtenInode i all last)).storeRecord
      (writtenInode i all last)).sb := commit_sb
  refine FS.record_congr hsb fun a h1 h2 => ?_
  unfold FS.commit
  dsimp only
  by_cases h12 : i.i_sectors 12 ≠ 0
  · rw [if_pos h12]
    have habove := FS.used_above hinv.geometry (hinv.used_indirect (hinv.copy hp) h12)
      (hinv.no_lt hp)
    have h2' : a < s.recordAddr i.i_no + 160 := h2
    exact Buf.patch_outside _ _ (by omega)
  · rw [if_neg h12]

theorem commit_synced (hinv : Inv s) (hp : s.inodes p = some i) (hall : Complete s i all)
    (hlast : last ≤ 71680) :
    (writtenInode i all last).Synced ((s.commit p i all last).record i.i_no) := by
  rw [commit_record hinv hp]
  exact FS.synced_storeRecord (writtenInode_fits hinv hp hall hlast)

theorem commit_record_indirect (hinv : Inv s) (hp : s.inodes p = some i) (hall : Complete s i all)
    (hlast : last ≤ 71680) :
    ((s.commit p i all last).record i.i_no).i_sectors 12 = i.i_sectors 12 := by
  rw [commit_record hinv hp]
  exact (FS.storeRecord_indirect (writtenInode_fits hinv hp hall hlast)).trans writtenInode_indirect

/-- A write that succeeds leaves the invariant. -/
theorem inv_commit (hinv : Inv s) (hp : s.inodes p = some i) (hall : Complete s i all)
    (hlast : last ≤ 71680) : Inv (s.commit p i all last) := by
  have hch := changesInode_commit last all hinv hp
  have hsync := commit_synced hinv hp hall hlast
  have hsize := hinv.size_le hp
  refine hch.inv hinv (by rw [commit_block_bitmap]) (hinv.table.counted p i hp)
    (writtenInode_fits hinv hp hall hlast) hsync ?_ ?_
  · show (if last > i.i_size then last else i.i_size) ≤ 71680
    split <;> omega
  · refine hinv.exclusive.extend
      (fun a b => a.1 = i.i_no ∧ b ≠ 0 ∧ all a.2 = b ∧ s.used b ∧ ∀ c, ¬ s.holds c b)
      ?_ ?_ ?_ ?_ ?_
    · intro a b hab
      rcases hch.holds_cases hinv.table hsync hab with h | ⟨hno, hb, hslot⟩
      · exact Or.inl h
      · rw [writtenInode_slot hall] at hslot
        split at hslot
        · next h140 =>
            refine Or.inl ⟨hb, i, by rw [hno]; exact hinv.copy hp, ?_⟩
            rw [h140, Inode.slot_indirect, hslot]
        · next hne =>
            rw [← hslot] at hb
            rcases hall.entry a.2 hb with ⟨h0, hkept⟩ | ⟨hu, hfree⟩
            · have hlt : a.2 < 140 := by
                by_contra hge
                exact h0 (Inode.blocks_beyond (by omega))
              refine Or.inl ⟨hslot ▸ hb, i, by rw [hno]; exact hinv.copy hp, ?_⟩
              rw [Inode.slot_block hlt, ← hkept, hslot]
            · rw [hslot] at hb hu hfree
              exact Or.inr ⟨hno, hb, hslot, hu, hfree⟩
    · rintro a c b ⟨-, -, -, -, hfree⟩ hh
      exact hfree c hh
    · rintro a c b ⟨hno, hb, hab, -, -⟩ ⟨hno', -, hcb, -, -⟩
      exact Prod.ext (hno.trans hno'.symm)
        (hall.inj a.2 c.2 (by rwa [hab]) (hab.trans hcb.symm))
    · exact fun b hb => (commit_used b).2 hb
    · rintro a b ⟨-, -, -, hu, -⟩
      exact (commit_used b).2 hu

end Commit

end RecoverOS
