import RecoverOS.Fs.PathCalls
import RecoverOS.Fs.Positions

set_option autoImplicit false

/-! # What a reboot finds on the disk (`fs/inode.c`, `fs/fs.c`)

Everything that is allocated, written and closed is on the disk when the call returns, and so is every block
that was given back. `inode_free` clears the bit of the inode in memory only. -/

namespace RecoverOS

/-! ## The bitmaps on the disk -/

/-- The disk holds the block bitmap of memory. -/
def BlockBitmapStored (s : FS) : Prop :=
  ∀ a < 512 * s.sb.block_bitmap_sects, s.disk (512 * s.sb.block_bitmap_lba + a) = s.block_bitmap.bits a

/-- The block bitmap on the disk stays that of memory, and nothing else before the inode table is written. -/
structure KeepsBitmaps (s t : FS) : Prop where
  sb : t.sb = s.sb
  super : ∀ a < 512 * s.sb.block_bitmap_lba, t.disk a = s.disk a
  inode_bits : ∀ a, 512 * s.sb.inode_bitmap_lba ≤ a → a < 512 * s.sb.inode_table_lba → t.disk a = s.disk a
  block_bits : BlockBitmapStored s → BlockBitmapStored t

/-- The sector of a bit that was changed is written. -/
theorem stored_bitmapSet {disk : Buf} {lba sects k : Nat} {b : Bitmap} (v : Bool)
    (h : ∀ a < 512 * sects, disk (512 * lba + a) = b.bits a) {a : Nat} (ha : a < 512 * sects) :
    disk.patch (512 * (lba + k / 4096)) 512 ((bitmapSet b k v).bits.from (512 * (k / 4096))) (512 * lba + a) =
      (bitmapSet b k v).bits a := by
  by_cases hin : 512 * (k / 4096) ≤ a ∧ a < 512 * (k / 4096) + 512
  · rw [Buf.patch_inside _ _ (by omega) (by omega), Buf.from_apply]
    congr 1
    omega
  · have hne : a ≠ k / 8 := by omega
    rw [Buf.patch_outside _ _ (by omega), h a ha]
    exact (Function.update_of_ne hne _ _).symm

namespace KeepsBitmaps

variable {s t u : FS} {k b : Nat}

theorem refl (s : FS) : KeepsBitmaps s s := ⟨rfl, fun _ _ => rfl, fun _ _ _ => rfl, id⟩

theorem trans (h : KeepsBitmaps s t) (h' : KeepsBitmaps t u) : KeepsBitmaps s u where
  sb := h'.sb.trans h.sb
  super a ha := (h'.super a (by rwa [h.sb])).trans (h.super a ha)
  inode_bits a h1 h2 := (h'.inode_bits a (by rwa [h.sb]) (by rwa [h.sb])).trans (h.inode_bits a h1 h2)
  block_bits hs := h'.block_bits (h.block_bits hs)

/-- Nothing before the inode table is written. -/
theorem of_disk (g : Geometry s) (hsb : t.sb = s.sb) (hbm : t.block_bitmap = s.block_bitmap)
    (hdisk : ∀ a < 512 * s.sb.inode_table_lba, t.disk a = s.disk a) : KeepsBitmaps s t where
  sb := hsb
  super a ha := hdisk a (by
    have hib := g.inode_lba
    have htab := g.table_lba
    omega)
  inode_bits a _ ha := hdisk a ha
  block_bits hs a ha := by
    rw [hsb] at ha ⊢
    rw [hbm, ← hs a ha]
    exact hdisk _ (by
      have hib := g.inode_lba
      have htab := g.table_lba
      omega)

theorem takeBlock (g : Geometry s) (hk : k < s.block_bitmap.size) : KeepsBitmaps s (s.takeBlock k) where
  sb := rfl
  super a ha := Buf.patch_outside _ _ (by omega)
  inode_bits a ha _ := FS.takeBlock_disk g hk ha
  block_bits hs _ ha := stored_bitmapSet true hs ha

theorem giveBlock (g : Geometry s) (hb : s.used b) : KeepsBitmaps s (s.giveBlock b) := by
  have hdata := hb.1
  have htab := g.data_lba
  have hib := g.table_lba
  have hbb := g.inode_lba
  refine ⟨rfl, fun a ha => ?_, fun a h1 h2 => FS.giveBlock_disk g hb h1 (by omega),
    fun hs a (ha : a < 512 * s.sb.block_bitmap_sects) => ?_⟩
  · exact (Buf.patch_outside _ _ (by omega)).trans (Buf.patch_outside _ _ (by omega))
  · refine stored_bitmapSet false (fun a' ha' => ?_) ha
    rw [Buf.patch_outside _ _ (by omega)]
    exact hs a' ha'

theorem writeSector (g : Geometry s) (hb : s.sb.data_start_lba ≤ b) (buf : Buf) :
    KeepsBitmaps s (s.writeSector b buf) :=
  of_disk g rfl rfl fun a ha => Buf.patch_outside _ _ (by
    have hdata := g.data_lba
    omega)

end KeepsBitmaps

/-! ## One call of the inode layer -/

section Layer

variable {s t s1 : FS} {p idx count pos : Nat} {i : Inode} {all : Nat → Nat} {buf : Buf}

/-- The entries of the array are in the data region. -/
def DataBlocks (s : FS) (all : Nat → Nat) : Prop := ∀ k, all k ≠ 0 → s.sb.data_start_lba ≤ all k

theorem ensureBlock_keeps {r : Option (Nat → Nat)} (g : Geometry s) (hall : DataBlocks s all)
    (h : ensureBlock all idx s = .ok (r, s1)) :
    KeepsBitmaps s s1 ∧ Geometry s1 ∧ ∀ all1, r = some all1 → DataBlocks s1 all1 ∧ all1 idx ≠ 0 := by
  obtain ⟨hne, hrun⟩ | ⟨-, -, hrun⟩ | ⟨k, b, -, halloc, hrun⟩ := ensureBlock_cases g all idx
  · rw [hrun] at h
    cases h
    refine ⟨.refl s, g, fun all1 heq => ?_⟩
    cases heq
    exact ⟨hall, hne⟩
  · rw [hrun] at h
    cases h
    exact ⟨.refl s, g, nofun⟩
  · rw [hrun] at h
    cases h
    refine ⟨.takeBlock g (bitmapAllocABit_eq_some halloc).1, g.congr rfl rfl rfl, fun all1 heq => ?_⟩
    cases heq
    refine ⟨fun j hj => ?_, ?_⟩
    · show s.sb.data_start_lba ≤ _
      by_cases hji : j = idx
      · rw [hji, Function.update_self]
        exact Nat.le_add_right _ k
      · rw [Function.update_of_ne hji] at hj ⊢
        exact hall j hj
    · rw [Function.update_self, g.data_lba]
      omega

/-- The loop of `inode_write`. -/
theorem writeLoop_keeps {w : WriteArgs} {n : Nat} {r : Option (Nat → Nat)} (g : Geometry s)
    (hall : DataBlocks s all) (h : writeLoop w n idx all buf s = .ok (r, t)) : KeepsBitmaps s t := by
  induction n generalizing idx all buf s with
  | zero => exact absurd h (by simp [writeLoop])
  | succ n ih =>
      obtain ⟨-, -, rfl⟩ | ⟨-, ⟨he, -⟩ | ⟨all1, s1, he, hturn⟩⟩ := writeLoop_succ_eq_ok h
      · exact .refl _
      · exact (ensureBlock_keeps g hall he).1
      · obtain ⟨hkeep, g1, hsome⟩ := ensureBlock_keeps g hall he
        obtain ⟨hall1, hne⟩ := hsome all1 rfl
        have hkeep2 := hkeep.trans (.writeSector g1 (hall1 idx hne)
          (w.image idx (s1.disk.from (512 * all1 idx)) buf))
        split at hturn
        · rw [hturn.2]
          exact hkeep2
        · exact hkeep2.trans (ih (g1.congr rfl rfl rfl) hall1 hturn)

theorem Inv.dataBlocks (hinv : Inv s) (hp : s.inodes p = some i) : DataBlocks s (i.blocks s.disk) :=
  fun _ hk => (hinv.used_blocks (hinv.copy hp) hk).1

theorem commit_keeps {last : Nat} (hinv : Inv s) (hp : s.inodes p = some i) :
    KeepsBitmaps s (s.commit p i all last) := by
  refine .of_disk hinv.geometry commit_sb commit_block_bitmap fun a ha => ?_
  have hge : 512 * s.sb.inode_table_lba ≤ s.recordAddr i.i_no := Nat.le_add_right _ _
  refine commit_disk (by omega) fun h12 => .inl ?_
  have hdata := (hinv.used_indirect (hinv.copy hp) h12).1
  have hdata' := hinv.geometry.data_lba
  omega

theorem allocIndirect_keeps {last : Nat} {b : Bool} (hinv : Inv s) (hp : s.inodes p = some i)
    (h : allocIndirect p last s = .ok (b, t)) : KeepsBitmaps s t := by
  obtain ⟨-, hrun⟩ | ⟨-, -, -, hrun⟩ | ⟨k, btmp, -, -, halloc, hrun⟩ :=
    allocIndirect_cases hinv.geometry hp last
  · rw [hrun] at h
    cases h
    exact .refl s
  · rw [hrun] at h
    cases h
    exact .refl s
  · rw [hrun] at h
    cases h
    have htake := KeepsBitmaps.takeBlock hinv.geometry (bitmapAllocABit_eq_some halloc).1
    have g1 : Geometry (s.takeBlock k) := hinv.geometry.congr rfl rfl rfl
    have hzero : KeepsBitmaps (s.takeBlock k)
        ((s.takeBlock k).writeSector (s.sb.data_start_lba + k) Buf.zero) :=
      .writeSector g1 (Nat.le_add_right _ k) Buf.zero
    exact (htake.trans hzero).trans ⟨rfl, fun _ _ => rfl, fun _ _ _ => rfl, id⟩

/-- `inode_write`, whether it succeeds or not. -/
theorem inodeWrite_keeps {r : Int} (hinv : Inv s) (hp : s.inodes p = some i)
    (h : inodeWrite p buf count pos s = .ok (r, t)) : KeepsBitmaps s t := by
  have hlive : ∀ (u : FS) n, KeepsBitmaps u { u with live := n } := fun _ _ =>
    ⟨rfl, fun _ _ => rfl, fun _ _ _ => rfl, id⟩
  obtain ⟨-, -, rfl⟩ | ⟨-, ⟨-, -, rfl⟩ | ⟨s1, i1, hrun, hb, hend⟩⟩ := inodeWrite_eq_ok hinv hp h
  · exact .refl _
  · exact hlive s _
  have hp0 : ({ s with live := s.live + 1 } : FS).inodes p = some i := hp
  have hkeep1 := (hlive s _).trans (allocIndirect_keeps (hinv.live _) hp0 hrun)
  have hdata := hb.inv.dataBlocks hb.object
  obtain ⟨hloop, -⟩ | ⟨all, s2, hloop, hobj2, -, rfl⟩ := hend
  · exact hkeep1.trans (writeLoop_keeps hb.inv.geometry hdata hloop)
  · have hkeep2 := hkeep1.trans (writeLoop_keeps hb.inv.geometry hdata hloop)
    obtain ⟨hi, all', hg, -⟩ := writeLoop_grown hb.inv.geometry hloop
    have hinv2 := hg.inv hb.inv (hb.inv.copy hb.object)
    exact (hkeep2.trans (commit_keeps hinv2 hobj2)).trans (hlive _ _)

/-- The loop of `inode_free`. -/
theorem freeLoop_keeps {n : Nat} (g : Geometry s) (hused : ∀ k, idx ≤ k → all k ≠ 0 → s.used (all k))
    (hinj : ∀ k k', all k ≠ 0 → all k = all k' → k = k') (h : freeLoop all n idx s = .ok ((), t)) :
    KeepsBitmaps s t := by
  induction n generalizing idx s with
  | zero =>
      cases h
      exact .refl _
  | succ n ih =>
      rw [freeLoop] at h
      by_cases h0 : all idx ≠ 0
      · have hb := hused idx le_rfl h0
        rw [if_pos h0, Prog.bind_of_ok (blockBitmapFree_of_used g hb)] at h
        -- no block is named twice, so those still to come stay in use
        refine (KeepsBitmaps.giveBlock g hb).trans (ih (FS.giveBlock_geometry g) (fun k hk hne => ?_) h)
        refine (FS.used_giveBlock hb).2 ⟨hused k (by omega) hne, fun heq => ?_⟩
        have hidx := hinj k idx hne heq
        omega
      · rw [if_neg h0] at h
        exact ih g (fun k hk => hused k (by omega)) h

/-- `inode_free`. -/
theorem inodeFree_keeps (hinv : Inv s) (hp : s.inodes p = some i) (h : inodeFree p s = .ok ((), t)) :
    KeepsBitmaps s t := by
  have hown := hinv.owned (hinv.copy hp)
  have hin : i.i_no < s.inode_bitmap.size := by
    rw [inode_bitmap_size hinv.geometry]
    exact hinv.no_lt hp
  let s1 : FS := { s with inode_bitmap := bitmapSet s.inode_bitmap i.i_no false }
  have hg1 : Geometry s1 := hinv.geometry.congr rfl rfl rfl
  have hkeep1 : KeepsBitmaps s s1 := ⟨rfl, fun _ _ => rfl, fun _ _ _ => rfl, id⟩
  unfold inodeFree at h
  rw [Prog.bind_of_ok (run_inodeAt hp), Prog.bind_of_ok (a := s) (t := s) rfl,
    Prog.run_require_bind hin, Prog.bind_of_ok (a := ()) (t := s1) rfl,
    Prog.bind_of_ok (run_getBlocksLba i s1)] at h
  obtain ⟨⟨⟩, s2, hloop, h2⟩ := Prog.bind_eq_ok.1 h
  have hkeep2 := hkeep1.trans (freeLoop_keeps hg1
    (fun k _ hk => (FS.used_congr rfl rfl _).2 (hown.used k hk)) hown.inj hloop)
  obtain ⟨⟨⟩, s3, hassert, hclose⟩ := Prog.bind_eq_ok.1 h2
  obtain ⟨-, rfl⟩ := Prog.assert_eq_ok.1 hassert
  obtain ⟨-, rfl⟩ | ⟨-, j, -, ⟨-, rfl⟩ | ⟨-, rfl⟩⟩ := inodeClose_eq hclose
  · exact hkeep2
  · exact hkeep2.trans ⟨rfl, fun _ _ => rfl, fun _ _ _ => rfl, id⟩
  · exact hkeep2.trans ⟨rfl, fun _ _ => rfl, fun _ _ _ => rfl, id⟩

end Layer

/-! ## What mounting reads -/

/-- The indirect blocks of the open inodes are in their records. -/
def IndirectStored (s : FS) : Prop :=
  ∀ p i, s.inodes p = some i → (s.record i.i_no).i_sectors 12 = i.i_sectors 12

/-- The disk holds what memory holds, but for the inode bitmap. -/
structure DiskHolds (part : Partition) (s : FS) : Prop where
  layout : Layout part s.sb
  sects : 0 < s.sb.block_bitmap_sects
  super : SuperBlock.decode (s.disk.from (512 * (part.start_lba + 1))) = s.sb
  block_bits : BlockBitmapStored s
  indirect : IndirectStored s

/-- The bit of inode `no` on the disk. -/
def FS.storedBit (s : FS) (no : Nat) : Bool :=
  bitmapRead ⟨512, s.disk.from (512 * s.sb.inode_bitmap_lba)⟩ no

theorem FS.storedBit_congr {s t : FS} (hsb : t.sb = s.sb) (hdisk : t.disk = s.disk) :
    t.storedBit = s.storedBit := by
  funext no
  unfold FS.storedBit
  rw [hsb, hdisk]

theorem KeepsBitmaps.storedBit {s t : FS} {no : Nat} (h : KeepsBitmaps s t) (g : Geometry s) (hno : no < 4096) :
    t.storedBit no = s.storedBit no := by
  have htab := g.table_lba
  unfold FS.storedBit
  rw [h.sb]
  exact bitmapRead_congr (h.inode_bits (512 * s.sb.inode_bitmap_lba + no / 8) (by omega) (by omega))

namespace DiskHolds

variable {part : Partition} {s t : FS} {m n p q k no file_type count pos : Nat} {i : Inode} {buf : Buf}
  {path : List Byte}

theorem of_super (h : DiskHolds part s) (hsb : t.sb = s.sb)
    (hsuper : ∀ a < 512 * s.sb.block_bitmap_lba, t.disk a = s.disk a) (hblock : BlockBitmapStored t)
    (hind : IndirectStored t) : DiskHolds part t where
  layout := hsb ▸ h.layout
  sects := hsb ▸ h.sects
  super := by
    have hlba := h.layout.block_bitmap_lba
    rw [hsb, ← h.super]
    refine SuperBlock.decode_congr fun a _ ha => ?_
    rw [Buf.from_apply, Buf.from_apply]
    exact hsuper _ (by omega)
  block_bits := hblock
  indirect := hind

theorem keeps (h : DiskHolds part s) (hkeep : KeepsBitmaps s t) (hind : IndirectStored t) : DiskHolds part t :=
  h.of_super hkeep.sb hkeep.super (hkeep.block_bits h.block_bits) hind

/-- Objects that name the indirect block of an object from before, or of their record. -/
theorem objects (h : DiskHolds part s) (hsb : t.sb = s.sb) (hdisk : t.disk = s.disk)
    (hbm : t.block_bitmap = s.block_bitmap)
    (hobj : ∀ p i, t.inodes p = some i → (s.record i.i_no).i_sectors 12 = i.i_sectors 12) : DiskHolds part t := by
  refine h.keeps ⟨hsb, fun _ _ => by rw [hdisk], fun _ _ _ => by rw [hdisk], fun hs a ha => ?_⟩ fun p i hp => ?_
  · rw [hsb] at ha ⊢
    rw [hdisk, hbm]
    exact hs a ha
  · have hrec : t.record i.i_no = s.record i.i_no :=
      FS.record_congr hsb fun _ _ _ => by rw [hdisk]
    rw [hrec]
    exact hobj p i hp

theorem setCount (h : DiskHolds part s) (hp : s.inodes p = some i) (n : Nat) :
    DiskHolds part (s.setObject p { i with i_open_cnts := n }) := by
  refine h.objects rfl rfl rfl fun q j hq => ?_
  have hq' : Function.update s.inodes p (some { i with i_open_cnts := n }) q = some j := hq
  by_cases hqp : q = p
  · rw [hqp, Function.update_self] at hq'
    cases hq'
    exact h.indirect p i hp
  · rw [Function.update_of_ne hqp] at hq'
    exact h.indirect q j hq'

theorem next (h : DiskHolds part s) (n : Nat) : DiskHolds part { s with next := s.next + n } :=
  ⟨h.layout, h.sects, h.super, h.block_bits, h.indirect⟩

theorem visited (h : DiskHolds part s) (hv : Visited s t) : DiskHolds part t := by
  obtain ⟨r, a, b, hr, rfl⟩ := hv
  exact (h.setCount hr _).next b

theorem load (h : DiskHolds part s) (hno : (s.record no).i_no = no) : DiskHolds part (s.loadInode no) := by
  refine h.objects rfl rfl rfl fun q j hq => ?_
  have hq' : Function.update s.inodes s.next (some (s.opened no)) q = some j := hq
  by_cases hqn : q = s.next
  · rw [hqn, Function.update_self] at hq'
    cases hq'
    have hno' : (s.opened no).i_no = no := hno
    rw [hno']
    rfl
  · rw [Function.update_of_ne hqn] at hq'
    exact h.indirect q j hq'

/-- `inode_open`. -/
theorem opened (h : DiskHolds part s) (hinv : Inv s) (ha : s.allocated no) (hrun : inodeOpen no s = .ok (p, t)) :
    DiskHolds part t := by
  obtain ⟨q, i, hq, -, hopen⟩ | ⟨-, hopen⟩ := inodeOpen_cases ha
  · rw [hopen] at hrun
    cases hrun
    exact h.setCount hq _
  · rw [hopen] at hrun
    cases hrun
    exact h.load (hinv.recorded no ha)

theorem found {o r : Option Nat} (h : DiskHolds part s) (hs : RootDir s m) (hf : Found s o r t) :
    DiskHolds part t := by
  cases hf with
  | none hv => exact h.visited hv
  | root hv => exact h.visited hv
  | file ho =>
      obtain ⟨u, hv, hrun⟩ := ho.run
      have ha := (FS.allocated_congr hv.inode_bitmap).2 ho.allocated
      exact (h.visited hv).opened (hv.rootDir hs).dir.inv ha hrun

theorem drop (h : DiskHolds part s) (p : Nat) : DiskHolds part (s.dropInode p) := by
  refine h.objects rfl rfl rfl fun q j hq => ?_
  have hq' : Function.update s.inodes p none q = some j := hq
  by_cases hqp : q = p
  · rw [hqp, Function.update_self] at hq'
    cases hq'
  · rw [Function.update_of_ne hqp] at hq'
    exact h.indirect q j hq'

/-- `inode_close`. -/
theorem close (h : DiskHolds part s) (hrun : inodeClose p s = .ok ((), t)) : DiskHolds part t := by
  obtain ⟨-, rfl⟩ | ⟨-, i, hp, ⟨-, rfl⟩ | ⟨-, rfl⟩⟩ := inodeClose_eq hrun
  · exact h
  · exact h.drop p
  · exact h.setCount hp _

/-- An `inode_write` that succeeds stores the record. -/
theorem write {r : Int} (h : DiskHolds part s) (hinv : Inv s) (hp : s.inodes p = some i) (hr : r ≠ -1)
    (hrun : inodeWrite p buf count pos s = .ok (r, t)) : DiskHolds part t := by
  refine h.keeps (inodeWrite_keeps hinv hp hrun) fun q j hq => ?_
  obtain ⟨hinv', i', hframe, ⟨hr', -⟩ | ⟨-, -, hdone⟩⟩ := inodeWrite_cases hinv hp hrun
  · exact absurd hr' hr
  obtain ⟨rfl, rfl⟩ | ⟨hqp, hq'⟩ := hframe.changes.inodes_cases hq
  · rw [hframe.changes.no]
    exact hdone.record_indirect
  · have hne : j.i_no ≠ i.i_no := fun heq => hqp (hinv.table.one_object _ _ _ _ hq' hp heq)
    rw [hframe.changes.record_other (hinv.no_lt hq') hne]
    exact h.indirect q j hq'

/-- `inode_alloc` stores the inode bitmap, all of it. -/
theorem create {btmp : Bitmap} (h : DiskHolds part s) (hinv : Inv s)
    (hb : bitmapAllocABit s.inode_bitmap = some (k, btmp)) (hft : file_type < 2 ^ 32) :
    DiskHolds part (s.createInode k file_type) ∧ ∀ no < 4096,
      (s.createInode k file_type).storedBit no = bitmapRead (s.createInode k file_type).inode_bitmap no := by
  obtain ⟨hk, -⟩ := bitmapAllocABit_eq_some hb
  have g := hinv.geometry
  have hinv' := inv_createInode hinv hb hft
  have hib := g.inode_lba
  have htab := g.table_lba
  have hge : 512 * s.sb.inode_table_lba ≤ s.recordAddr k := Nat.le_add_right _ _
  have hlow : ∀ a < 512 * s.sb.inode_bitmap_lba, (s.createInode k file_type).disk a = s.disk a := fun a ha =>
    createInode_disk g hk (.inl ha) (.inl (by omega))
  constructor
  · refine h.of_super rfl (fun a ha => hlow a (by omega)) (fun a ha => ?_) fun q j hq => ?_
    · have ha' : a < 512 * s.sb.block_bitmap_sects := ha
      have hkept := hlow (512 * s.sb.block_bitmap_lba + a) (by omega)
      exact hkept.trans (h.block_bits a ha)
    · have hsync := (hinv'.synced q j hq).indirect
      have hq' : Function.update s.inodes s.next (some (newInode k file_type)) q = some j := hq
      by_cases hqn : q = s.next
      · rw [hqn, Function.update_self] at hq'
        cases hq'
        exact hsync.elim id id
      · rw [Function.update_of_ne hqn] at hq'
        have hne : j.i_no ≠ k := fun heq => by
          have hset := (hinv.open_allocated q j hq').2
          rw [heq, (bitmapAllocABit_eq_some hb).2.1] at hset
          cases hset
        have hapart := FS.recordAddr_apart (s := s) hne
        have hge' : 512 * s.sb.inode_table_lba ≤ s.recordAddr j.i_no := Nat.le_add_right _ _
        have hrec : (s.createInode k file_type).record j.i_no = s.record j.i_no :=
          @FS.record_congr s (s.createInode k file_type) rfl _ fun a h1 h2 =>
            createInode_disk g hk (.inr (by omega)) (by omega)
        rw [hrec]
        exact h.indirect q j hq'
  · intro no hno
    -- the inode bitmap has one sector
    have hzero : k / 4096 = 0 := by
      rw [inode_bitmap_size g] at hk
      omega
    have hdisk : (s.createInode k file_type).disk = (s.takeInode k).disk.patch (s.recordAddr k) 160
        (newInode k file_type).encode := rfl
    have htake : (s.takeInode k).disk = s.disk.patch (512 * (s.sb.inode_bitmap_lba + k / 4096)) 512
        ((bitmapSet s.inode_bitmap k true).bits.from (512 * (k / 4096))) := rfl
    refine bitmapRead_congr ?_
    show (s.createInode k file_type).disk (512 * s.sb.inode_bitmap_lba + no / 8) =
      (bitmapSet s.inode_bitmap k true).bits (no / 8)
    rw [hdisk, Buf.patch_outside _ _ (by omega), htake, hzero,
      Buf.patch_inside _ _ (by omega) (by omega), Buf.from_apply]
    congr 1
    omega

/-- `inode_free`. -/
theorem free (h : DiskHolds part s) (hinv : Inv s) (hp : s.inodes p = some i) (hroot : p ≠ s.root_dir_inode)
    (hcnt : i.i_open_cnts = 1) (hrun : inodeFree p s = .ok ((), t)) : DiskHolds part t := by
  refine h.keeps (inodeFree_keeps hinv hp hrun) fun q j hq => ?_
  obtain ⟨s2, hfreed, hrun2⟩ := inodeFree_freed hinv hp hroot hcnt
  rw [hrun] at hrun2
  cases hrun2
  have hinodes : (s2.dropInode p).inodes = Function.update s.inodes p none := by
    rw [hfreed.frame]
    rfl
  have hsb : (s2.dropInode p).sb = s.sb := by
    rw [hfreed.frame]
    rfl
  rw [hinodes] at hq
  by_cases hqp : q = p
  · rw [hqp, Function.update_self] at hq
    cases hq
  · rw [Function.update_of_ne hqp] at hq
    have hrec : (s2.dropInode p).record j.i_no = s.record j.i_no := by
      refine FS.record_congr hsb fun a h1 h2 => ?_
      refine hfreed.disk a (Nat.le_trans (FS.recordAddr_ge hinv.geometry j.i_no) h1) fun n _ _ hn => .inl ?_
      have habove := FS.used_above hinv.geometry (hinv.used_blocks (hinv.copy hp) hn) (hinv.no_lt hq)
      omega
    rw [hrec]
    exact h.indirect q j hq

/-- `create_file_or_directory` that returns an inode. -/
theorem createFile (h : DiskHolds part s) (hs : RootDir s m)
    (hrun : createFileOrDirectory 0 path FT_REGULAR s = .ok (some p, t)) :
    DiskHolds part t ∧ ∀ no < 4096, t.storedBit no = bitmapRead t.inode_bitmap no := by
  obtain ⟨-, hnone⟩ | ⟨k, btmp, hb, ⟨-, hstop⟩ | ⟨u, hv, hlen, ⟨-, heq⟩ | ⟨-, heq⟩⟩⟩ := hs.create_run path
  · rw [hnone] at hrun
    cases hrun
  · rw [hstop] at hrun
    cases hrun
  · rw [heq] at hrun
    obtain ⟨⟨⟩, v, -, hnone⟩ := Prog.bind_eq_ok.1 hrun
    cases hnone
  obtain ⟨h1, hbits⟩ := h.create hs.dir.inv hb (by decide : FT_REGULAR < 2 ^ 32)
  have hu := hv.rootDir (hs.createInode hb).1
  have hroot : u.root_dir_inode = s.root_dir_inode := hv.root
  rw [heq] at hrun
  obtain ⟨linked, v, hlink, hrest⟩ := Prog.bind_eq_ok.1 hrun
  have htrue : linked = true ∧ t = v := by
    cases linked with
    | false =>
        obtain ⟨⟨⟩, v1, -, hclose⟩ := Prog.bind_eq_ok.1 hrest
        obtain ⟨⟨⟩, v2, -, hnone⟩ := Prog.bind_eq_ok.1 hclose
        cases hnone
    | true =>
        cases hrest
        exact ⟨rfl, rfl⟩
  obtain ⟨rfl, rfl⟩ := htrue
  -- an entry of that name would have made `dir_link` return false
  by_cases hlook : u.lookNo 0 (lastName path) = none
  · obtain ⟨l, -, hslot, -⟩ := exists_linkSlot u m
    rw [← hroot, hu.dirLink_absent (e := ⟨lastName path, k, FT_REGULAR⟩) hlen hlook hslot] at hlink
    obtain ⟨r, w, hwrite, hres⟩ := Prog.bind_eq_ok.1 hlink
    obtain ⟨hne, rfl⟩ := Prog.pure_eq_ok.1 hres
    obtain ⟨i, hp, -⟩ := hu.dir.object
    obtain ⟨-, i', hframe, -⟩ := inodeWrite_cases hu.dir.inv hp hwrite
    refine ⟨(h1.visited hv).write hu.dir.inv hp (bne_iff_ne.1 hne) hwrite, fun no hno => ?_⟩
    rw [(inodeWrite_keeps hu.dir.inv hp hwrite).storedBit hu.dir.inv.geometry hno,
      FS.storedBit_congr hv.sb hv.disk, hframe.changes.inode_bitmap, hv.inode_bitmap]
    exact hbits no hno
  · obtain ⟨w, hfalse, -⟩ := hu.dirLink_taken (e := ⟨lastName path, k, FT_REGULAR⟩) hlen hlook
    rw [← hroot, hfalse] at hlink
    cases hlink

/-- `delete_file_or_directory` from its `inode_free` on: the bit is still set on the disk. -/
theorem deleteFound {mapped : Bool} (h : DiskHolds part s) (hs : RootDir s m)
    (hp : s.inodes p = some i) (hne : p ≠ s.root_dir_inode) (hcnt : i.i_open_cnts = 1)
    (hlen : (lastName path).length < MAX_FILE_NAME_LEN) (hlook : s.lookNo 0 (lastName path) = some i.i_no)
    (hrun : deleteFound mapped path s.root_dir_inode p s = .ok ((), t)) :
    DiskHolds part t ∧ (∀ no < 4096, t.storedBit no = s.storedBit no) ∧
      t.inode_bitmap = bitmapSet s.inode_bitmap i.i_no false := by
  unfold RecoverOS.deleteFound at hrun
  obtain ⟨⟨⟩, u, hfree, h1⟩ := Prog.bind_eq_ok.1 hrun
  obtain ⟨⟨⟩, u', hclosed, h2⟩ := Prog.bind_eq_ok.1 h1
  obtain ⟨-, rfl⟩ := Prog.require_eq_ok.1 hclosed
  obtain ⟨b, v, hunlink, h3⟩ := Prog.bind_eq_ok.1 h2
  obtain ⟨-, rfl⟩ := Prog.assert_eq_ok.1 h3
  obtain ⟨k, hdang, hfind⟩ := hs.dangling hp hne hcnt hlook hfree
  obtain ⟨hframe, -⟩ := RootFrame.inodeFree hs hp hne hcnt hfree
  obtain ⟨u2, hfree2, -, hbm, -⟩ := inodeFree_run hs.dir.inv hp hne hcnt
  rw [hfree] at hfree2
  cases hfree2
  rw [← hframe.root, hdang.dirUnlink_eq hlen hfind] at hunlink
  obtain ⟨r, w, hwrite, hres⟩ := Prog.bind_eq_ok.1 hunlink
  obtain ⟨-, rfl⟩ := Prog.pure_eq_ok.1 hres
  have hroot := hdang.isDir
  obtain ⟨j, hj, -⟩ := hroot.object
  -- the empty entry goes over one that is there, so the write needs no block
  have hr : r ≠ -1 := by
    obtain ⟨r', v', hwrite', -, -, -, -, -, ⟨rfl, -⟩ | ⟨-, heq, -⟩⟩ :=
      IsDir.write_root (s := { u with next := u.next + 1 }) hroot hdang.only (Nat.le_of_lt hdang.slot) Buf.zero
    · have hsame : RecoverOS.inodeWrite u.root_dir_inode Buf.zero sizeofDirEntry (32 * k)
          { u with next := u.next + 1 } = .ok (32, v') := hwrite'
      rw [hsame] at hwrite
      cases hwrite
      decide
    · exact absurd heq (Nat.ne_of_lt hdang.slot)
  obtain ⟨-, j', hchanged, -⟩ := inodeWrite_cases hroot.inv hj hwrite
  refine ⟨((h.free hs.dir.inv hp hne hcnt hfree).next 1).write hroot.inv hj hr hwrite, fun no hno => ?_,
    hchanged.changes.inode_bitmap.trans hbm⟩
  rw [(inodeWrite_keeps hroot.inv hj hwrite).storedBit hroot.inv.geometry hno]
  exact (inodeFree_keeps hs.dir.inv hp hfree).storedBit hs.dir.inv.geometry hno

end DiskHolds

/-! ## Mounting -/

/-- What `mount_partition` and `inode_open` find on the disk after a reboot is what memory held before: the
    same inodes and blocks are allocated, and every inode has its size, its type and its blocks. -/
def SameAfterMount (part : Partition) (s : FS) : Prop :=
  ∃ t, mountPartition part (FS.boot s.disk) = .ok ((), t) ∧ (∀ no, t.allocated no ↔ s.allocated no) ∧
    (∀ b, t.used b ↔ s.used b) ∧ ∀ no i, s.Copy no i → ∃ p t' j, inodeOpen no t = .ok (p, t') ∧
      t'.inodes p = some j ∧ j.i_size = i.i_size ∧ j.f_type = i.f_type ∧ ∀ k, j.slot t'.disk k = i.slot s.disk k

section Mount

variable {part : Partition} {s t : FS}

/-- What mounting does with such a disk. -/
theorem DiskHolds.mount (h : DiskHolds part s) (g : Geometry s) :
    ∃ t, mountPartition part (FS.boot s.disk) = .ok ((), t) ∧ t.disk = s.disk ∧ t.sb = s.sb ∧
      t.open_inodes = [] ∧ (∀ b, t.used b ↔ s.used b) ∧
      ∀ no, t.allocated no ↔ no < 4096 ∧ s.storedBit no = true := by
  have hdec : SuperBlock.decode (Buf.zero.patch 0 (512 * 1)
      (s.disk.from (512 * (part.start_lba + 1)))) = s.sb := by
    rw [← h.super]
    exact SuperBlock.decode_congr fun a _ ha => Buf.patch_start _ _ _ (by omega)
  have hib := h.layout.inode_bitmap_sects
  unfold mountPartition
  rw [Prog.bind_of_ok (a := ()) (sysMalloc_eq_ok.2 rfl), Prog.bind_of_ok (a := ()) (sysMalloc_eq_ok.2 rfl),
    Prog.bind_of_ok (run_ideRead _ _ _ Nat.one_pos _)]
  dsimp only [FS.boot]
  rw [hdec, Prog.bind_of_ok (a := ()) (sysFree_eq_ok.2 rfl), Prog.bind_of_ok (a := ()) (sysMalloc_eq_ok.2 rfl),
    Prog.bind_of_ok (run_ideRead _ _ _ h.sects _), Prog.bind_of_ok (a := ()) (sysMalloc_eq_ok.2 rfl),
    Prog.bind_of_ok (run_ideRead _ _ _ (by omega) _)]
  refine ⟨_, rfl, rfl, rfl, rfl, fun b => ?_, fun no => ?_⟩
  · have hsize : s.block_bitmap.size = 8 * (512 * s.sb.block_bitmap_sects) := by rw [Bitmap.size, g.block_len]
    unfold FS.used
    rw [hsize]
    refine and_congr_right fun hge => and_congr_right fun hlt => iff_of_eq (congrArg (· = true) ?_)
    have hge' : s.sb.data_start_lba ≤ b := hge
    have hlt' : b < s.sb.data_start_lba + 8 * (512 * s.sb.block_bitmap_sects) := hlt
    clear hge hlt
    have hbyte : (b - s.sb.data_start_lba) / 8 < 512 * s.sb.block_bitmap_sects := by omega
    exact bitmapRead_congr ((Buf.patch_start _ _ _ hbyte).trans (h.block_bits _ hbyte))
  · refine and_congr_right fun hno => iff_of_eq (congrArg (· = true) (bitmapRead_congr ?_))
    exact Buf.patch_start _ _ _ (by
      have hlt : no < 4096 := hno
      rw [hib]
      omega)

theorem DiskHolds.sameAfterMount_iff (h : DiskHolds part s) (hinv : Inv s) :
    SameAfterMount part s ↔ ∀ no < 4096, s.storedBit no = bitmapRead s.inode_bitmap no := by
  obtain ⟨t, hrun, hdisk, hsb, hopen, hused, halloc⟩ := h.mount hinv.geometry
  have hrec : ∀ no, t.record no = s.record no := fun no => FS.record_congr hsb fun _ _ _ => by rw [hdisk]
  constructor
  · rintro ⟨t', hrun', hsame, -⟩ no hno
    rw [hrun] at hrun'
    cases hrun'
    have hiff := (halloc no).symm.trans (hsame no)
    exact Bool.eq_iff_iff.2 ⟨fun hbit => (hiff.1 ⟨hno, hbit⟩).2, fun hbit => (hiff.2 ⟨hno, hbit⟩).2⟩
  · intro hbits
    refine ⟨t, hrun, fun no => ?_, hused, fun no i hc => ?_⟩
    · rw [halloc]
      unfold FS.allocated
      constructor
      · exact fun ⟨hno, hbit⟩ => ⟨hno, hbits no hno ▸ hbit⟩
      · exact fun ⟨hno, hbit⟩ => ⟨hno, (hbits no hno).trans hbit⟩
    · have hnone : t.findInode no = none := by
        unfold FS.findInode
        rw [hopen]
        rfl
      have hobj : (t.loadInode no).inodes t.next = some (t.opened no) := Function.update_self ..
      have hfound : (s.record no).i_size = i.i_size ∧ (s.record no).f_type = i.f_type ∧
          ∀ k, (s.record no).slot s.disk k = i.slot s.disk k := by
        -- an open inode agrees with its record, its indirect block included
        obtain ⟨-, ⟨p, hp, rfl⟩ | rfl⟩ := hc
        · have hsync := hinv.synced p i hp
          refine ⟨hsync.size, hsync.type, Inode.slot_congr (fun k hk => ?_) fun _ _ _ _ => rfl⟩
          by_cases h12 : k = 12
          · rw [h12]
            exact h.indirect p i hp
          · exact hsync.direct k (by omega)
        · exact ⟨rfl, rfl, fun _ => rfl⟩
      have hslot : ∀ k, (t.opened no).slot t.disk k = (t.record no).slot t.disk k := Inode.slot_openCnts 1
      refine ⟨_, _, _, inodeOpen_new hnone hc.1.1, hobj, ?_, ?_, fun k => (hslot k).trans ?_⟩
      · exact (congrArg Inode.i_size (hrec no)).trans hfound.1
      · exact (congrArg Inode.f_type (hrec no)).trans hfound.2.1
      · rw [hrec, hdisk]
        exact hfound.2.2 k

/-- Bytes whose bits are the same are the same. -/
theorem bits_eq_of_bitmapRead {b c : Bitmap} {a : Nat}
    (h : ∀ j < 8, bitmapRead b (8 * a + j) = bitmapRead c (8 * a + j)) : b.bits a = c.bits a := by
  refine BitVec.eq_of_getLsbD_eq fun j hj => ?_
  have hbit := h j hj
  rw [bitmapRead_eq_getLsbD, bitmapRead_eq_getLsbD, show (8 * a + j) / 8 = a by omega,
    show (8 * a + j) % 8 = j by omega] at hbit
  exact hbit

/-- The state that `filesys_init` leaves. -/
theorem stored_filesysInit {disk : Buf} (h : filesysInit part (FS.boot disk) = .ok ((), s)) :
    DiskHolds part s ∧ ∀ no < 4096, s.storedBit no = bitmapRead s.inode_bitmap no := by
  obtain ⟨t, hm, -, hinodes, -, rfl⟩ := filesysInit_eq h
  have hstored : DiskHolds part t :=
    { layout := hm.layout
      sects := hm.formatted.sects
      super := by
        rw [← SuperBlock.decode_encode hm.layout.fits]
        exact SuperBlock.decode_congr fun a h1 h2 => hm.formatted.super a h1 (by omega)
      block_bits := fun a ha => by
        refine bits_eq_of_bitmapRead (b := ⟨0, t.disk.from (512 * t.sb.block_bitmap_lba)⟩) fun j hj => ?_
        rw [hm.formatted.block_bits _ (fun _ _ => rfl) _ (by omega), hm.block_bits _ (by omega)]
      indirect := fun p i hp => by
        rw [hinodes] at hp
        cases hp }
  obtain ⟨hlayout, hsects, hsuper, hblock, hind⟩ := hstored.load hm.record_root.1
  refine ⟨⟨hlayout, hsects, hsuper, hblock, hind⟩, fun no hno => ?_⟩
  exact (hm.formatted.inode_bits _ (fun _ _ => rfl) no hno).trans (hm.inode_bits no hno).symm

end Mount

/-- The inode bitmap on the disk is that of memory, or it still has the bit of an inode that was freed. -/
def BitsOnDisk (s : FS) : Bool → Prop
  | false => ∀ no < 4096, s.storedBit no = bitmapRead s.inode_bitmap no
  | true => ∃ no < 4096, s.storedBit no = true ∧ bitmapRead s.inode_bitmap no = false

theorem BitsOnDisk.congr {s t : FS} {deleted : Bool} (h : BitsOnDisk s deleted)
    (hstored : ∀ no < 4096, t.storedBit no = s.storedBit no) (hbm : t.inode_bitmap = s.inode_bitmap) :
    BitsOnDisk t deleted := by
  cases deleted with
  | false => exact fun no hno => (hstored no hno).trans ((h no hno).trans (by rw [hbm]))
  | true =>
      obtain ⟨no, hno, hset, hclear⟩ := h
      exact ⟨no, hno, (hstored no hno).trans hset, by rwa [hbm]⟩

/-- Freeing an allocated inode in memory only. -/
theorem BitsOnDisk.free {s t : FS} {deleted : Bool} {no : Nat} (h : BitsOnDisk s deleted) (ha : s.allocated no)
    (hstored : ∀ no < 4096, t.storedBit no = s.storedBit no)
    (hbm : t.inode_bitmap = bitmapSet s.inode_bitmap no false) : BitsOnDisk t true := by
  cases deleted with
  | false =>
      refine ⟨no, ha.1, (hstored no ha.1).trans ((h no ha.1).trans ha.2), ?_⟩
      rw [hbm, bitmapRead_bitmapSet_self]
  | true =>
      obtain ⟨no', hno, hset, hclear⟩ := h
      refine ⟨no', hno, (hstored no' hno).trans hset, ?_⟩
      rw [hbm, bitmapRead_bitmapSet]
      split
      · rfl
      · exact hclear

theorem DiskHolds.sameAfterMount_iff_deleted {part : Partition} {s : FS} {deleted : Bool} (h : DiskHolds part s)
    (hinv : Inv s) (hbits : BitsOnDisk s deleted) : SameAfterMount part s ↔ deleted = false := by
  rw [h.sameAfterMount_iff hinv]
  cases deleted with
  | false => exact iff_of_true hbits rfl
  | true =>
      obtain ⟨no, hno, hset, hclear⟩ := hbits
      refine iff_of_false (fun hall => ?_) nofun
      have hsame := (hall no hno).symm.trans hset
      rw [hclear] at hsame
      cases hsame

/-- The same entries, the same paths. -/
theorem RootDir.resolve_congr {s t : FS} {m : Nat} (h : RootDir s m) (ht : RootDir t m)
    (hfile : t.file 0 = s.file 0) (path : List Byte) : t.resolve 0 path = s.resolve 0 path := by
  unfold FS.resolve
  rw [h.resolveParent_congr ht (h.lookNo_congr ht hfile)]
  cases hparent : s.resolveParent 0 path with
  | none => rfl
  | some parent =>
      obtain ⟨d, name⟩ := parent
      obtain ⟨rfl, -⟩ := h.resolveParent_some hparent
      dsimp only
      rw [h.lookNo_congr ht hfile]

/-! ## File operations -/

namespace Kernel

/-- An operation on files with its arguments. -/
inductive FileCall (P : Type) where
  | create (p : P) (pathname : List Byte) (flag : Nat)
  | write (p : P) (fd : Nat) (buf : Buf) (count : Nat)
  | lseek (p : P) (fd : Nat) (offset : Int) (whence : Whence)
  | unlink (mapped : Bool) (p : P) (pathname : List Byte)
  | close (p : P) (fd : Nat)

variable {P : Type} [DecidableEq P] {part : Partition} {s s' : Kernel P} {p : P} {path : List Byte}
  {fd count : Nat} {buf : Buf} {deleted : Bool}

namespace FileCall

/-- The operation succeeds. `sys_unlink` returns 0 for a closed file only. -/
def Step (s : Kernel P) : FileCall P → Kernel P → Prop
  | create p pathname flag, s' => ∃ fd, fileCreate p pathname flag s = .ok (some fd, s')
  | write p fd buf count, s' => sysWrite p fd buf count s = .ok ((count : Int), s')
  | lseek p fd offset whence, s' => ∃ r, sysLseek p fd offset whence s = .ok (r, s')
  | unlink mapped p pathname, s' => sysUnlink mapped p pathname s = .ok (0, s')
  | close p fd, s' => sysClose p fd s = .ok ((), s')

/-- Whether a deleted file is the last that was created or deleted. -/
def deletedAfter (deleted : Bool) : FileCall P → Bool
  | create .. => false
  | unlink .. => true
  | _ => deleted

/-- A file was deleted, and none was created since. -/
def deletedLast (cs : List (FileCall P)) : Bool := cs.foldl deletedAfter false

end FileCall

/-- What memory and disk have in common after every operation. -/
structure OnDisk (part : Partition) (deleted : Bool) (s : Kernel P) : Prop where
  rooted : Rooted s
  positioned : Positioned s
  files : ∀ idx inode, (s.file_table idx).fd_inode = some inode → inode ≠ s.fs.root_dir_inode
  stored : DiskHolds part s.fs
  bits : BitsOnDisk s.fs deleted

section Step

/-- A descriptor that is installed is not one of the console's. -/
theorem pcbFdInstall_eq_some {idx : Nat} (h : pcbFdInstall p idx s = .ok (some fd, s')) :
    3 ≤ fd ∧ fd < 8 ∧
      s' = { s with fd_table := Function.update s.fd_table p (Function.update (s.fd_table p) fd (some idx)) } := by
  unfold pcbFdInstall at h
  rw [Prog.bind_of_ok (a := s) (t := s) rfl] at h
  cases hfind : (List.range' 3 (MAX_FILES_OPEN_PER_PROC - 3)).find? fun fd => (s.fd_table p fd).isNone with
  | none =>
      rw [hfind] at h
      cases h
  | some fd' =>
      rw [hfind] at h
      have hmem := List.mem_range'_1.1 (List.mem_of_find?_eq_some hfind)
      cases h
      exact ⟨hmem.1, hmem.2, rfl⟩

/-- What a `file_create` that returns a descriptor has done. -/
theorem fileCreate_eq_ok {flag : Nat} (h : fileCreate p path flag s = .ok (some fd, s')) :
    ∃ idx inode t, getFreeSlotInGlobal s = some idx ∧
      createFileOrDirectory (s.cwd_i_no p) path FT_REGULAR s.fs = .ok (some inode, t) ∧ 3 ≤ fd ∧ fd < 8 ∧
      s' = { s with
        fs := t
        file_table := Function.update s.file_table idx ⟨0, flag, some inode⟩
        fd_table := Function.update s.fd_table p (Function.update (s.fd_table p) fd (some idx)) } := by
  unfold Kernel.fileCreate at h
  rw [Prog.bind_of_ok (a := s) (t := s) rfl] at h
  cases hslot : getFreeSlotInGlobal s with
  | none =>
      rw [hslot] at h
      cases h
  | some idx =>
      rw [hslot] at h
      obtain ⟨created, s1, hcreate, h1⟩ := Prog.bind_eq_ok.1 h
      obtain ⟨t, hcreate', rfl⟩ := onFs_eq_ok.1 hcreate
      cases created with
      | none => cases h1
      | some inode =>
          obtain ⟨⟨⟩, s2, hset, h2⟩ := Prog.bind_eq_ok.1 h1
          rw [Prog.modify_eq_ok.1 hset] at h2
          obtain ⟨hge, hlt, rfl⟩ := pcbFdInstall_eq_some h2
          exact ⟨idx, inode, t, rfl, hcreate', hge, hlt, rfl⟩

theorem OnDisk.create {flag : Nat} (h : OnDisk part deleted s)
    (hrun : fileCreate p path flag s = .ok (some fd, s')) : OnDisk part false s' := by
  obtain ⟨idx, inode, t, -, hcreate, -, -, rfl⟩ := fileCreate_eq_ok hrun
  have hg := createFileOrDirectory_grows _ _ _ _ _ _ hcreate
  rw [h.rooted.cwd] at hcreate
  obtain ⟨m, hm⟩ := h.rooted.fs
  obtain ⟨hstored, hbits⟩ := h.stored.createFile hm hcreate
  obtain ⟨-, hstop⟩ | ⟨u, hnone, -⟩ | ⟨k, u, hsome, hc⟩ := hm.create path
  · rw [hstop] at hcreate
    cases hcreate
  · rw [hnone] at hcreate
    cases hcreate
  rw [hsome] at hcreate
  cases hcreate
  obtain ⟨l, -, -, hu, -⟩ := hc.linked
  obtain ⟨r, hr, -⟩ := hm.object
  have hne : s.fs.next ≠ s.fs.root_dir_inode := (Nat.ne_of_lt (hm.dir.inv.table.fresh _ _ hr)).symm
  refine ⟨h.rooted.congr rfl ⟨_, hu⟩,
    h.positioned.store hg rfl (.start (hu.dir.inv.table.fresh _ _ hc.object) flag), fun idx' inode' hino => ?_,
    hstored, hbits⟩
  have hino' : (Function.update s.file_table idx ⟨0, flag, some s.fs.next⟩ idx').fd_inode = some inode' := hino
  show inode' ≠ t.root_dir_inode
  rw [hc.root]
  by_cases hidx : idx' = idx
  · rw [hidx, Function.update_self] at hino'
    cases hino'
    exact hne
  · rw [Function.update_of_ne hidx] at hino'
    exact h.files idx' inode' hino'

omit [DecidableEq P] in
/-- What a `sys_write` that does not return -1 has done. -/
theorem sysWrite_eq_ok {r : Int} (h : sysWrite p fd buf count s = .ok (r, s')) (hr : r ≠ -1) :
    ∃ idx f inode t, openFile p fd s = .ok ((idx, f, inode), s) ∧
      inodeWrite inode buf count f.fd_pos s.fs = .ok (r, t) ∧
      s' = { s with
        fs := t
        file_table := Function.update s.file_table idx { f with fd_pos := u64 (f.fd_pos + u64OfInt r) } } := by
  unfold Kernel.sysWrite at h
  obtain ⟨⟨idx, f, inode⟩, s1, hopen, h1⟩ := Prog.bind_eq_ok.1 h
  obtain ⟨-, -, -, -, -, rfl⟩ := openFile_eq_ok.1 hopen
  change (if Writable f then _ else _ : Prog (Kernel P) Int) s1 = _ at h1
  split at h1
  · obtain ⟨ret, s2, hwrite, h2⟩ := Prog.bind_eq_ok.1 h1
    obtain ⟨t, hwrite', rfl⟩ := onFs_eq_ok.1 hwrite
    cases h2
    exact ⟨idx, f, inode, t, hopen, hwrite', rfl⟩
  · cases h1
    exact absurd rfl hr

omit [DecidableEq P] in
theorem OnDisk.write (h : OnDisk part deleted s) (hrun : sysWrite p fd buf count s = .ok ((count : Int), s')) :
    OnDisk part deleted s' := by
  obtain ⟨m, hm⟩ := h.rooted.fs
  have hr : (count : Int) ≠ -1 := by omega
  obtain ⟨idx, f, inode, t, hopen, hwrite, hs'⟩ := sysWrite_eq_ok hrun hr
  obtain ⟨-, -, -, hf, hino, -⟩ := openFile_eq_ok.1 hopen
  have hne : inode ≠ s.fs.root_dir_inode := h.files idx inode (hf ▸ hino)
  cases hp : s.fs.inodes inode with
  | none => exact absurd (inodeWrite_none hp hwrite).1 hr
  | some i =>
      obtain ⟨-, i', hframe, ⟨hneg, -⟩ | ⟨hret, -⟩⟩ := inodeWrite_cases hm.dir.inv hp hwrite
      · exact absurd hneg hr
      -- a count that is returned is no negative `ssize_t`
      have hcount : count < 2 ^ 63 := by
        unfold s64 at hret
        split at hret <;> omega
      have hpos : f.fd_pos ≤ i.i_size := by
        rw [hf] at hino ⊢
        exact (h.positioned idx).inside inode i hino hp
      have hplaced : Positioned s' := by
        obtain ⟨idx', f', inode', hopen', ⟨-, hneg, -⟩ | ⟨-, t', hg, hs2, ⟨hneg, -⟩ | ⟨-, hroom, hle⟩⟩⟩ :=
          h.positioned.write hm hcount hrun
        · exact absurd hneg hr
        · exact absurd hneg hr
        · obtain ⟨-, -, -, hf', hino', -⟩ := openFile_eq_ok.1 hopen'
          have hfit : f'.fd_pos + count ≤ 71680 := hroom.1
          rw [(advances_nat (by omega)).1] at hs2
          rw [hs2]
          exact h.positioned.store hg rfl
            (Placed.move ((hf' ▸ h.positioned idx' : Placed s.fs f').grows hg) hino' hfit hle)
      rw [hs'] at hplaced ⊢
      refine ⟨h.rooted.congr rfl ⟨m, hm.inodeWrite hp hne hpos hcount hwrite⟩, hplaced,
        fun idx' inode' hino' => ?_, h.stored.write hm.dir.inv hp hr hwrite,
        h.bits.congr (fun no hno => ?_) hframe.changes.inode_bitmap⟩
      · have hslot : (Function.update s.file_table idx { f with fd_pos := u64 (f.fd_pos + u64OfInt count) }
            idx').fd_inode = some inode' := hino'
        show inode' ≠ t.root_dir_inode
        rw [hframe.changes.root]
        by_cases hidx : idx' = idx
        · rw [hidx, Function.update_self] at hslot
          exact h.files idx inode' (hf ▸ hslot)
        · rw [Function.update_of_ne hidx] at hslot
          exact h.files idx' inode' hslot
      · exact (inodeWrite_keeps hm.dir.inv hp hwrite).storedBit hm.dir.inv.geometry hno

omit [DecidableEq P] in
/-- `sys_lseek` leaves the slots their inodes. -/
theorem sysLseek_inodes {offset : Int} {whence : Whence} {r : Int}
    (hrun : sysLseek p fd offset whence s = .ok (r, s')) (idx : Nat) :
    (s'.file_table idx).fd_inode = (s.file_table idx).fd_inode := by
  unfold Kernel.sysLseek at hrun
  split at hrun
  · cases hrun
    rfl
  · obtain ⟨⟨idx', f, inode⟩, s1, hopen, h1⟩ := Prog.bind_eq_ok.1 hrun
    obtain ⟨-, -, -, hf, -, rfl⟩ := openFile_eq_ok.1 hopen
    obtain ⟨i, s2, hat, h2⟩ := Prog.bind_eq_ok.1 h1
    obtain ⟨t, -, rfl⟩ := onFs_eq_ok.1 hat
    have hstore : ∀ new_pos : Int,
        (if new_pos < 0 ∨ new_pos > s64 i.i_size then pure (-1) else do
          setFile idx' { f with fd_pos := u64OfInt new_pos }
          pure new_pos : Prog (Kernel P) Int) { s1 with fs := t } = .ok (r, s') →
        (s'.file_table idx).fd_inode = (s1.file_table idx).fd_inode := by
      intro new_pos hres
      split at hres
      · cases hres
        rfl
      · cases hres
        show (Function.update s1.file_table idx' _ idx).fd_inode = _
        by_cases hidx : idx = idx'
        · rw [hidx, Function.update_self, hf]
        · rw [Function.update_of_ne hidx]
    exact hstore _ h2

omit [DecidableEq P] in
theorem OnDisk.lseek {offset : Int} {whence : Whence} {r : Int} (h : OnDisk part deleted s)
    (hrun : sysLseek p fd offset whence s = .ok (r, s')) : OnDisk part deleted s' := by
  obtain ⟨m, hm⟩ := h.rooted.fs
  obtain ⟨hfs, -⟩ := sysLseek_fs hrun
  refine ⟨h.rooted.sysLseek hrun, h.positioned.lseek hm hrun, fun idx inode hino => ?_, hfs ▸ h.stored,
    hfs ▸ h.bits⟩
  rw [hfs]
  rw [sysLseek_inodes hrun] at hino
  exact h.files idx inode hino

theorem OnDisk.close (h : OnDisk part deleted s) (hrun : sysClose p fd s = .ok ((), s')) :
    OnDisk part deleted s' := by
  have hrooted := h.rooted.sysClose hrun
  have hplaced := sysClose_keeps p fd _ _ _ hrun h.positioned
  obtain ⟨-, idx, f, inode, t, -, hclose, rfl⟩ := sysClose_eq_ok.1 hrun
  have hsame : t.root_dir_inode = s.fs.root_dir_inode ∧ t.storedBit = s.fs.storedBit ∧
      t.inode_bitmap = s.fs.inode_bitmap := by
    obtain ⟨-, rfl⟩ | ⟨-, i, -, ⟨-, rfl⟩ | ⟨-, rfl⟩⟩ := inodeClose_eq hclose
    · exact ⟨rfl, rfl, rfl⟩
    · exact ⟨rfl, FS.storedBit_congr rfl rfl, rfl⟩
    · exact ⟨rfl, FS.storedBit_congr rfl rfl, rfl⟩
  refine ⟨hrooted, hplaced, fun idx' inode' hino => ?_, h.stored.close hclose,
    h.bits.congr (fun no _ => congrFun hsame.2.1 no) hsame.2.2⟩
  have hino' : (Function.update s.file_table idx { f with fd_inode := none } idx').fd_inode = some inode' :=
    hino
  show inode' ≠ t.root_dir_inode
  rw [hsame.1]
  by_cases hidx : idx' = idx
  · rw [hidx, Function.update_self] at hino'
    cases hino'
  · rw [Function.update_of_ne hidx] at hino'
    exact h.files idx' inode' hino'

omit [DecidableEq P] in
theorem OnDisk.unlink {mapped : Bool} (h : OnDisk part deleted s)
    (hrun : sysUnlink mapped p path s = .ok (0, s')) : OnDisk part true s' := by
  obtain ⟨m, hm⟩ := h.rooted.fs
  have hrooted := h.rooted.sysUnlink hrun
  have hplaced := sysUnlink_keeps mapped p path _ _ _ hrun h.positioned
  unfold Kernel.sysUnlink at hrun
  obtain ⟨-, -, hlook⟩ | ⟨-, t, -, hlook⟩ | ⟨no, q, u, r, t, -, -, hlast, hlook⟩ := h.rooted.unlinkLookUp p path
  · rw [Prog.bind_of_error hlook] at hrun
    cases hrun
  · rw [Prog.bind_of_ok hlook] at hrun
    cases hrun
  rw [Prog.bind_of_ok hlook] at hrun
  cases r with
  | none => cases hrun
  | some inode =>
      obtain ⟨⟨⟩, s1, hdelete, h1⟩ := Prog.bind_eq_ok.1 hrun
      obtain ⟨v, hdelete', rfl⟩ := onFs_eq_ok.1 hdelete
      cases h1
      cases hno : s.fs.lastNo 0 path with
      | none =>
          rw [hno] at hlast
          cases hlast
      | some no' =>
          rw [hno] at hlast
          obtain ⟨hne, hzero, w, -, hroot, -, -, hrun2⟩ | ⟨-, hstop⟩ := hm.delete hno hlast
          · have hdelete2 := hdelete'.symm.trans (hrun2 mapped)
            cases hlast with
            | root => exact absurd rfl hne
            | file ho =>
                obtain ⟨j, hj, hjno, hcnt⟩ := ho.object hm
                obtain ⟨x, hv, hone, ht⟩ := ho.openedOne hm
                obtain ⟨hname, hlen⟩ := hm.lastNo_some hno
                rw [hzero] at hcnt
                rw [← ho.lookNo hm, ← hjno] at hname
                have hdelete3 := hdelete'
                rw [← (ho.others hm).1] at hdelete3
                obtain ⟨hstored, hbits, hbm⟩ :=
                  (h.stored.found hm (.file ho)).deleteFound ht hj (ho.ne_root hm) hcnt hlen hname hdelete3
                have hsame : t.storedBit = s.fs.storedBit :=
                  FS.storedBit_congr (hone.sb.trans hv.sb) (hone.disk.trans hv.disk)
                have hmap : v = w := by
                  cases mapped with
                  | false => cases hdelete2
                  | true => exact (congrArg Prod.snd (Except.ok.inj hdelete2))
                refine ⟨hrooted, hplaced, fun idx inode' hino => ?_, hstored, ?_⟩
                · have hino' : (clearSlots s.file_table q idx).fd_inode = some inode' := hino
                  show inode' ≠ v.root_dir_inode
                  rw [hmap, hroot]
                  unfold clearSlots at hino'
                  split at hino'
                  · cases hino'
                  · exact h.files idx inode' hino'
                · refine h.bits.free ho.allocated (fun n hn => (hbits n hn).trans (congrFun hsame n)) ?_
                  show v.inode_bitmap = _
                  rw [hbm, hjno, hone.inode_bitmap, hv.inode_bitmap]
          · have hpanic := hdelete'.symm.trans (hstop mapped)
            cases hpanic

theorem OnDisk.step {c : FileCall P} (h : OnDisk part deleted s) (hstep : c.Step s s') :
    OnDisk part (FileCall.deletedAfter deleted c) s' := by
  cases c with
  | create p pathname flag =>
      obtain ⟨fd, hrun⟩ := hstep
      exact h.create hrun
  | write p fd buf count => exact h.write hstep
  | lseek p fd offset whence =>
      obtain ⟨r, hrun⟩ := hstep
      exact h.lseek hrun
  | unlink mapped p pathname => exact h.unlink hstep
  | close p fd => exact h.close hstep

end Step

section Runs

variable {s0 : Kernel P} {disk : Buf} {cs : List (FileCall P)}

omit [DecidableEq P] in
theorem Booted.onDisk (h : Booted s0) (hmount : filesysInit part (FS.boot disk) = .ok ((), s0.fs)) :
    OnDisk part false s0 := by
  obtain ⟨hstored, hbits⟩ := stored_filesysInit hmount
  refine ⟨h.rooted, h.positioned, fun idx inode hino => ?_, hstored, hbits⟩
  rw [h.file_table] at hino
  cases hino

/-- After every run of operations. -/
theorem OnDisk.run (h : OnDisk part false s0) (hrun : Run FileCall.Step s0 cs s) :
    OnDisk part (FileCall.deletedLast cs) s := by
  induction hrun with
  | nil => exact h
  | snoc _ hlast ih =>
      unfold FileCall.deletedLast at ih ⊢
      rw [List.foldl_append]
      exact ih.step hlast

/-- A reboot finds on the disk what was in memory if and only if no file was deleted after the last one was
    created. -/
theorem remount_iff (h0 : Booted s0) (hmount : filesysInit part (FS.boot disk) = .ok ((), s0.fs))
    (hrun : Run FileCall.Step s0 cs s) : SameAfterMount part s.fs ↔ FileCall.deletedLast cs = false := by
  have hdisk := (h0.onDisk hmount).run hrun
  obtain ⟨m, hm⟩ := hdisk.rooted.fs
  exact hdisk.stored.sameAfterMount_iff_deleted hm.dir.inv hdisk.bits

end Runs

/-! ## A file that comes back -/

theorem exists_mounted : ∃ s0 : Kernel Unit, Booted s0 ∧
    filesysInit smallPartition (FS.boot Buf.zero) = .ok ((), s0.fs) := by
  obtain ⟨fs, hfs⟩ := @filesysInit_run smallPartition (by decide) (by decide) Buf.zero
  exact ⟨⟨fs, fun _ => ⟨0, 0, none⟩, fun _ _ => none, fun _ => 0, fun _ => true⟩,
    ⟨⟨_, _, hfs⟩, fun _ => rfl, fun _ _ => rfl, fun _ => rfl⟩, hfs⟩

/-- A file that was created is on the disk. -/
theorem remount_created : ∃ s0 s : Kernel Unit, Booted s0 ∧
    filesysInit smallPartition (FS.boot Buf.zero) = .ok ((), s0.fs) ∧
    Run FileCall.Step s0 [.create () [97] 6] s ∧ SameAfterMount smallPartition s.fs := by
  obtain ⟨s0, h0, hmount⟩ := exists_mounted
  obtain ⟨fd, s, hrun⟩ : ∃ fd s, fileCreate () [97] 6 s0 = .ok (some fd, s) :=
    h0.fileCreate () (fitsPath_of_length (by decide)) (by decide) (Option.some_ne_none (0, [97])) (by decide)
      (by decide)
  have hsteps : Run FileCall.Step s0 [.create () [97] 6] s := .single ⟨fd, hrun⟩
  exact ⟨s0, s, h0, hmount, hsteps, (remount_iff h0 hmount hsteps).2 rfl⟩

omit [DecidableEq P] in
/-- A closed file can be deleted. -/
theorem Rooted.sysUnlink_closed {no : Nat} (h : Rooted s) (hres : s.fs.resolve 0 path = some no) (hne : no ≠ 0)
    (hzero : s.fs.openCount no = 0) (p : P) : ∃ t, Kernel.sysUnlink true p path s = .ok (0, t) := by
  obtain ⟨m, hm⟩ := h.fs
  have hlast := hm.lastNo_of_resolve hres hne
  obtain ⟨-, hnone, -⟩ | ⟨hnone, -⟩ | ⟨no1, q, u, -, -, ⟨hnone, -⟩ |
    ⟨no', q', v, t, -, -, -, -, -, -, -, -, hsome⟩ | ⟨no', hlast', hwhy, -⟩⟩ := h.sysUnlink_cases hm p path
  · rw [hnone] at hres
    cases hres
  · rw [hnone] at hres
    cases hres
  · rw [hnone] at hlast
    cases hlast
  · exact ⟨_, hsome true⟩
  · rw [hlast] at hlast'
    cases hlast'
    exact absurd hzero (hwhy.resolve_left hne)

/-- A file that was just created is closed. -/
theorem OnDisk.close_created {flag : Nat} (h : OnDisk part deleted s) (hfit : FitsPath path) (hstr : 0 ∉ path)
    (hname : lastName path ≠ []) (hrun : fileCreate p path flag s = .ok (some fd, s')) :
    ∃ no t, sysClose p fd s' = .ok ((), t) ∧ t.fs.resolve 0 path = some no ∧ no ≠ 0 ∧
      t.fs.openCount no = 0 := by
  obtain ⟨idx, inode, fs, hslot, hcreate, hfd, hfd', rfl⟩ := fileCreate_eq_ok hrun
  obtain ⟨hidx, -⟩ := Session.getFreeSlotInGlobal_some hslot
  rw [h.rooted.cwd] at hcreate
  obtain ⟨m, hm⟩ := h.rooted.fs
  obtain ⟨-, hstop⟩ | ⟨u, hnone, -⟩ | ⟨k, u, hsome, hc⟩ := hm.create path
  · rw [hstop] at hcreate
    cases hcreate
  · rw [hnone] at hcreate
    cases hcreate
  rw [hsome] at hcreate
  cases hcreate
  obtain ⟨l, -, -, hu, -⟩ := hc.linked
  obtain ⟨r, hr, -⟩ := hm.object
  have hne : s.fs.next ≠ fs.root_dir_inode := by
    rw [hc.root]
    exact (Nat.ne_of_lt (hm.dir.inv.table.fresh _ _ hr)).symm
  have hclose : inodeClose s.fs.next fs = .ok ((), fs.dropInode s.fs.next) := inodeClose_last hne hc.object rfl
  have hd := hu.close hclose
  have hframe : RootFrame fs (fs.dropInode s.fs.next) :=
    .of_objects rfl (Function.update_of_ne hne.symm _ _) rfl rfl rfl
  refine ⟨k, _, sysClose_eq_ok.2 ⟨by omega, idx, ⟨0, flag, some s.fs.next⟩, s.fs.next, _,
    openFile_eq_ok.2 ⟨hfd', ?_, hidx, ?_, rfl, rfl⟩, hclose, rfl⟩, ?_, ?_, ?_⟩
  · show Function.update s.fd_table p (Function.update (s.fd_table p) fd (some idx)) p fd = some idx
    rw [Function.update_self, Function.update_self]
  · exact (Function.update_self idx _ s.file_table).symm
  · have hres := hc.resolve hm hfit hstr
    rw [if_neg hname] at hres
    exact (hu.resolve_congr hd (hframe.file hu hd.dir.inv.table) path).trans hres
  · rintro rfl
    exact hc.fresh hm.allocated_zero
  · refine openCount_none hd.dir.inv.table ?_
    cases hfind : (fs.dropInode s.fs.next).findInode k with
    | none => rfl
    | some q =>
        obtain ⟨-, i, hq, hi⟩ := FS.findInode_some hfind
        have hq' : Function.update fs.inodes s.fs.next none q = some i := hq
        by_cases hqn : q = s.fs.next
        · rw [hqn, Function.update_self] at hq'
          cases hq'
        · rw [Function.update_of_ne hqn] at hq'
          exact absurd (hu.dir.inv.table.one_object _ _ _ _ hq' hc.object hi) hqn

/-- The inode of a file that was deleted is allocated again. -/
theorem not_remount_deleted : ∃ (s0 s : Kernel Unit) (fd : Nat), Booted s0 ∧
    filesysInit smallPartition (FS.boot Buf.zero) = .ok ((), s0.fs) ∧
    Run FileCall.Step s0 [.create () [97] 6, .close () fd, .unlink true () [97]] s ∧
    ¬ SameAfterMount smallPartition s.fs := by
  obtain ⟨s0, h0, hmount⟩ := exists_mounted
  have hfit : FitsPath [97] := fitsPath_of_length (by decide)
  obtain ⟨fd, s1, hcreate⟩ : ∃ fd s1, fileCreate () [97] 6 s0 = .ok (some fd, s1) :=
    h0.fileCreate () hfit (by decide) (Option.some_ne_none (0, [97])) (by decide) (by decide)
  have hdisk := h0.onDisk hmount
  obtain ⟨no, s2, hclose, hres, hne, hzero⟩ := hdisk.close_created hfit (by decide) (by decide) hcreate
  obtain ⟨s, hunlink⟩ := ((hdisk.create hcreate).close hclose).rooted.sysUnlink_closed hres hne hzero ()
  have hrun : Run FileCall.Step s0 [.create () [97] 6, .close () fd, .unlink true () [97]] s :=
    .cons ⟨fd, hcreate⟩ (.cons hclose (.single hunlink))
  have hend := hdisk.run hrun
  obtain ⟨m, hm⟩ := hend.rooted.fs
  exact ⟨s0, s, fd, h0, hmount, hrun, fun hsame =>
    Bool.noConfusion ((hend.stored.sameAfterMount_iff_deleted hm.dir.inv hend.bits).1 hsame)⟩

end Kernel

end RecoverOS
