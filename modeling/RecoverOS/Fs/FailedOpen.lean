import RecoverOS.Fs.PathCalls

set_option autoImplicit false

/-! # A `sys_open` that fails

`sys_open` takes a slot of `file_table`, an inode and a descriptor one after the other, and what it took
before it failed it mostly keeps. It leaves no trace when it failed before it had taken anything, and when
`create_file_or_directory` could take back what it had done. -/

namespace RecoverOS

/-! ## Free blocks -/

section Blocks

variable {s t : FS}

theorem freeBlocks_congr (hlen : t.block_bitmap.bytes_len = s.block_bitmap.bytes_len)
    (hbits : ∀ n < s.block_bitmap.size, bitmapRead t.block_bitmap n = bitmapRead s.block_bitmap n) :
    t.freeBlocks = s.freeBlocks := by
  have hsize : t.block_bitmap.size = s.block_bitmap.size := by
    unfold Bitmap.size
    rw [hlen]
  unfold FS.freeBlocks
  rw [hsize]
  exact congrArg Finset.card (Finset.filter_congr fun n hn => by rw [hbits n (Finset.mem_range.1 hn)])

/-- When every block is in use, none is taken. -/
theorem used_of_full (hfull : s.freeBlocks = 0) (hsb : t.sb = s.sb)
    (hlen : t.block_bitmap.bytes_len = s.block_bitmap.bytes_len) (hmono : ∀ b, s.used b → t.used b)
    (b : Nat) : t.used b ↔ s.used b := by
  refine ⟨fun hb => ?_, hmono b⟩
  obtain ⟨hge, hlt, -⟩ := hb
  have hsize : t.block_bitmap.size = s.block_bitmap.size := by
    unfold Bitmap.size
    rw [hlen]
  rw [hsb] at hge hlt
  rw [hsize] at hlt
  refine ⟨hge, hlt, ?_⟩
  have hempty := Finset.filter_eq_empty_iff.1 (Finset.card_eq_zero.1 hfull)
  simpa using hempty (Finset.mem_range.2 (by omega : b - s.sb.data_start_lba < s.block_bitmap.size))

end Blocks

/-! ## Linking -/

section Link

variable {s t : FS} {m k : Nat} {r r' : Inode} {e : DirEntry}

/-- What `dir_link` with the root directory does to the block bitmap. -/
theorem RootDir.dirLink_blocks (h : RootDir s m) (hr : s.inodes s.root_dir_inode = some r)
    (hlen : e.filename.length < MAX_FILE_NAME_LEN) {b : Bool}
    (hrun : RecoverOS.dirLink s.root_dir_inode e s = .ok (b, t)) :
    (s.lookNo 0 e.filename ≠ none ∧ b = false ∧ Visited s t) ∨
      (s.lookNo 0 e.filename = none ∧ b = false ∧
        (∀ l < m, entryType ((s.file 0).from (32 * l)) ≠ FT_UNKNOWN) ∧
        ((71680 < 32 * m + 32 ∧ t = s) ∨
          (32 * m + 32 ≤ 71680 ∧ s.freeBlocks < blocksNeeded s r (32 * m) 32 ∧ t.freeBlocks = 0 ∧
            t.block_bitmap.bytes_len = s.block_bitmap.bytes_len ∧ t.sb = s.sb ∧
            ∀ b, s.used b → t.used b))) ∨
      (s.lookNo 0 e.filename = none ∧ b = true ∧
        ((∀ l < m, entryType ((s.file 0).from (32 * l)) ≠ FT_UNKNOWN) →
          32 * m + 32 ≤ 71680 ∧ blocksNeeded s r (32 * m) 32 ≤ s.freeBlocks)) := by
  by_cases hlook : s.lookNo 0 e.filename = none
  · right
    obtain ⟨k, hk, hslot, herased, hfull⟩ := exists_linkSlot s m
    rw [h.dirLink_absent hlen hlook hslot] at hrun
    obtain ⟨w, u, hwrite, hret⟩ := Prog.bind_eq_ok.1 hrun
    obtain ⟨rfl, rfl⟩ := Prog.pure_eq_ok.1 hret
    obtain ⟨w', u', hwrite', hbm, hres⟩ := h.dir.inodeWrite hk e.encode
    rw [hwrite] at hwrite'
    cases hwrite'
    rcases hres with ⟨rfl, hdir⟩ | ⟨rfl, rfl, hblocks, -⟩
    · refine .inr ⟨hlook, rfl, fun hnot => ?_⟩
      have hkm : k = m := by
        by_contra hne
        exact hnot k (by omega) (herased (by omega))
      subst hkm
      have hle := hdir.le
      have hfit : 32 * k + 32 ≤ 71680 := by omega
      refine ⟨hfit, ?_⟩
      rcases inodeWrite_run e.encode h.dir.inv hr hfit with ⟨hroom, -⟩ | ⟨-, v, stop, hfail, -⟩
      · exact hroom
      · rw [hwrite] at hfail
        cases hfail
    · refine .inl ⟨hlook, rfl, hfull rfl, ?_⟩
      by_cases hfit : 32 * k + 32 ≤ 71680
      · refine .inr ⟨hfit, ?_⟩
        have hu : u64 (32 * k + 32) = 32 * k + 32 := u64_of_lt (by omega)
        obtain ⟨-, i', hframe, -⟩ := inodeWrite_cases h.dir.inv hr hwrite
        refine ⟨?_, ?_, hframe.len, hframe.changes.sb, hframe.used_mono⟩
        · rcases inodeWrite_run e.encode h.dir.inv hr hfit with ⟨-, v, i', hdone, -⟩ | ⟨hroom, -⟩
          · rw [hwrite] at hdone
            cases hdone
          · exact hroom
        · refine inodeWrite_exhausted h.dir.inv hr ?_ ?_ hwrite
          · rw [hu]
            exact Nat.not_lt.2 hfit
          · rw [s64_of_lt (by decide)]
            decide
      · have hlong : u64 (32 * k + sizeofDirEntry) > MAX_FILE_SIZE := by
          have hle := h.dir.le
          rw [u64_of_lt (by show 32 * k + 32 < 2 ^ 64; omega)]
          exact Nat.lt_of_not_le hfit
        rw [inodeWrite_too_long hlong] at hwrite
        cases hwrite
        exact .inl ⟨Nat.lt_of_not_le hfit, rfl⟩
  · obtain ⟨u, htaken, hv⟩ := h.dirLink_taken hlen hlook
    rw [htaken] at hrun
    cases hrun
    exact .inl ⟨hlook, rfl, hv⟩

/-- What a write to the root directory needs is the same once an inode was created and the root was
    opened. -/
theorem RootDir.blocksNeeded_created {btmp : Bitmap} (h : RootDir s m)
    (hb : bitmapAllocABit s.inode_bitmap = some (k, btmp)) (hv : Visited (s.createInode k FT_REGULAR) t)
    (hr : s.inodes s.root_dir_inode = some r) (hr' : t.inodes t.root_dir_inode = some r')
    (pos count : Nat) : blocksNeeded t r' pos count = blocksNeeded s r pos count := by
  obtain ⟨h1, -⟩ := h.createInode hb
  obtain ⟨r1, hr1, hr10, -⟩ := h1.object
  have hsame : r1 = r := by
    have hobj := (RootFrame.createInode h hb).object
    have hroot : (s.createInode k FT_REGULAR).root_dir_inode = s.root_dir_inode := rfl
    rw [hroot, hobj, hr] at hr1
    exact (Option.some.inj hr1).symm
  subst hsame
  have hk : ¬ s.allocated k := (h.created_object hb (.refl hr1)).2.2.2.2.1
  have hne : r1.i_no ≠ k := by
    rintro rfl
    exact hk (h.dir.inv.open_allocated _ _ hr)
  obtain ⟨-, hblocks⟩ := copy_createInode h.dir.inv hb hne (h1.dir.inv.copy hr1)
  have hdisk := hv.disk
  obtain ⟨r0, a, b, hr0, rfl⟩ := hv
  rw [hr1] at hr0
  cases hr0
  have hself : Function.update (s.createInode k FT_REGULAR).inodes
      (s.createInode k FT_REGULAR).root_dir_inode (some { r1 with i_open_cnts := r1.i_open_cnts + a })
      (s.createInode k FT_REGULAR).root_dir_inode = some r' := hr'
  rw [Function.update_self] at hself
  cases hself
  unfold blocksNeeded
  rw [hdisk]
  refine congrArg (needIndirect r1 (pos + count) + ·) (missing_congr fun n _ _ => ?_)
  rw [← hblocks n]
  exact Iff.rfl

end Link

/-! ## Creating -/

section Create

variable {s t u v : FS} {m : Nat} {r : Inode} {path : List Byte}

/-- The root directory has no erased entry. -/
def FS.NoErased (s : FS) : Prop :=
  ∀ k < (s.copyOf 0).i_size / 32, entryType ((s.file 0).from (32 * k)) ≠ FT_UNKNOWN

/-- The root directory cannot get longer, and it takes no block to find that out. -/
def FS.CannotGrow (s : FS) : Prop :=
  71680 < (s.copyOf 0).i_size + 32 ∨
    (s.freeBlocks = 0 ∧ 0 < blocksNeeded s (s.copyOf 0) (s.copyOf 0).i_size 32)

/-- Nothing can be created under the path: no inode is free, the directory is missing, the name is
    taken, or there is no room for an entry. -/
def FS.CannotCreate (s : FS) (path : List Byte) : Prop :=
  bitmapAllocABit s.inode_bitmap = none ∨ s.resolveParent 0 path = none ∨
    s.lookNo 0 (lastName path) ≠ none ∨ (s.NoErased ∧ s.CannotGrow)

/-- What `create_file_or_directory` leaves when it returns `NULL`. -/
structure NotCreated (s : FS) (m : Nat) (path : List Byte) (t : FS) : Prop where
  rootDir : RootDir t m
  objects : SameObjects s t
  file : ∀ a < 32 * m, t.file 0 a = s.file 0 a
  inode_bitmap : SameBits t.inode_bitmap s.inode_bitmap
  len : t.block_bitmap.bytes_len = s.block_bitmap.bytes_len
  sb : t.sb = s.sb
  used_mono : ∀ b, s.used b → t.used b
  blocks : (s.CannotCreate path ∧ ∀ b, t.used b ↔ s.used b) ∨
    ((s.CannotCreate path ↔ s.freeBlocks = 0) ∧ t.freeBlocks = 0)

theorem NotCreated.sameBits_iff (h : NotCreated s m path t) :
    SameBits t.block_bitmap s.block_bitmap ↔ s.CannotCreate path := by
  obtain ⟨hcannot, hused⟩ | ⟨hiff, hzero⟩ := h.blocks
  · exact ⟨fun _ => hcannot, fun _ => SameBits.of_used h.sb h.len hused⟩
  · rw [hiff]
    constructor
    · intro hbits
      rw [← freeBlocks_congr h.len hbits.2, hzero]
    · exact fun hfull => SameBits.of_used h.sb h.len (used_of_full hfull h.sb h.len h.used_mono)

/-- In the root directory's own words. -/
theorem RootDir.cannotGrow_iff (h : RootDir s m) (hr : s.inodes s.root_dir_inode = some r) :
    s.CannotGrow ↔ 71680 < 32 * m + 32 ∨ (s.freeBlocks = 0 ∧ 0 < blocksNeeded s r (32 * m) 32) := by
  obtain ⟨r', hr', -, -, hsize, hcopy⟩ := h.object
  rw [hr] at hr'
  cases hr'
  unfold FS.CannotGrow
  rw [hcopy, hsize]

theorem RootDir.noErased_iff (h : RootDir s m) :
    s.NoErased ↔ ∀ l < m, entryType ((s.file 0).from (32 * l)) ≠ FT_UNKNOWN := by
  obtain ⟨r, -, -, -, hsize, hcopy⟩ := h.object
  unfold FS.NoErased
  rw [hcopy, hsize, Nat.mul_div_cancel_left m (by decide)]

theorem Undone.notCreated (h : Undone s m u v) (hlen : u.block_bitmap.bytes_len = s.block_bitmap.bytes_len)
    (hsb : u.sb = s.sb) (hmono : ∀ b, s.used b → u.used b)
    (hblocks : (s.CannotCreate path ∧ ∀ b, u.used b ↔ s.used b) ∨
      ((s.CannotCreate path ↔ s.freeBlocks = 0) ∧ u.freeBlocks = 0)) : NotCreated s m path v where
  rootDir := h.rootDir
  objects := h.objects
  file := h.file
  inode_bitmap := h.inode_bitmap
  len := h.len.trans hlen
  sb := h.sb.trans hsb
  used_mono := fun b hb => (h.used b).2 (hmono b hb)
  blocks := by
    refine hblocks.imp (fun hsame => ⟨hsame.1, fun b => (h.used b).trans (hsame.2 b)⟩)
      fun hfull => ⟨hfull.1, ?_⟩
    have hbits := SameBits.of_used h.sb h.len h.used
    rw [freeBlocks_congr h.len hbits.2, hfull.2]

/-- `create_file_or_directory` returns `NULL` and leaves what it found, up to the block bitmap; or else
    there was room. -/
theorem RootDir.create_outcome (h : RootDir s m) {o : Option Nat}
    (hrun : createFileOrDirectory 0 path FT_REGULAR s = .ok (o, t)) :
    (o = none ∧ NotCreated s m path t) ∨ (o = some s.next ∧ ¬ s.CannotCreate path) := by
  obtain ⟨r, hr, -, -, hsize, hcopy⟩ := h.object
  obtain ⟨hbits, hnone⟩ | ⟨k, btmp, hb, ⟨-, hstop⟩ | ⟨w, hv, hlen, ⟨hparent, heq⟩ | ⟨hparent, heq⟩⟩⟩ :=
    h.create_run path
  · rw [hnone] at hrun
    cases hrun
    exact .inl ⟨rfl, h, ⟨rfl, fun _ _ => rfl⟩, fun _ _ => rfl, .refl _, rfl, rfl,
      fun _ hb => hb, .inl ⟨.inl hbits, fun _ => Iff.rfl⟩⟩
  · rw [hstop] at hrun
    cases hrun
  -- the block bitmap is as it was when the search for the directory returns
  all_goals
    obtain ⟨h1, hfile1⟩ := h.createInode hb
    have hw := hv.rootDir h1
    obtain ⟨rw', hrw, -⟩ := hw.object
    have hsbw : w.sb = s.sb := hv.sb
    have hbmw : w.block_bitmap = s.block_bitmap := hv.block_bitmap
    have husedw : ∀ b, w.used b ↔ s.used b := FS.used_congr hsbw hbmw
    have hlenw : w.block_bitmap.bytes_len = s.block_bitmap.bytes_len := by rw [hbmw]
  · obtain ⟨v, hfree, hundone⟩ := h.undo hb hv hw ⟨rfl, fun _ _ => rfl⟩ rfl fun _ _ => rfl
    rw [heq, Prog.bind_of_ok hfree] at hrun
    cases hrun
    refine .inl ⟨rfl, hundone.notCreated hlenw hsbw (fun b => (husedw b).2) ?_⟩
    exact .inl ⟨.inr (.inl hparent), husedw⟩
  · obtain ⟨hobj, hne, ha, hfilew, -, hun⟩ := h.created_object hb hv
    have hlook : w.lookNo 0 (lastName path) = s.lookNo 0 (lastName path) := h.lookNo_congr hw hfilew _
    have hneed := h.blocksNeeded_created hb hv hr hrw (32 * m) 32
    have hfreew : w.freeBlocks = s.freeBlocks := freeBlocks_congr hlenw fun n _ => by rw [hbmw]
    obtain ⟨b, u, hlink, huroot, hbm, hother, hres⟩ := hw.dirLink
      (e := ⟨lastName path, k, FT_REGULAR⟩) hlen rfl ha (by rw [hfilew]; exact hun)
    have hblocks := hw.dirLink_blocks hrw (e := ⟨lastName path, k, FT_REGULAR⟩) hlen hlink
    dsimp only at hblocks
    rw [hlook, hfilew, hneed, hfreew, ← h.noErased_iff] at hblocks
    have hroot : w.root_dir_inode = s.root_dir_inode := hv.root
    rw [hroot] at hlink
    rw [heq, Prog.bind_of_ok hlink] at hrun
    rcases hres with ⟨rfl, -, hu, hfileu⟩ | ⟨rfl, habsent, -⟩
    · obtain ⟨v, hfree, hundone⟩ := h.undo hb hv hu ⟨huroot, hother⟩ hbm hfileu
      rw [if_pos rfl, Prog.bind_of_ok hfree,
        Prog.bind_of_ok (inodeClose_root hundone.objects.root.symm)] at hrun
      cases hrun
      refine .inl ⟨rfl, ?_⟩
      obtain ⟨htaken, -, hvu⟩ | ⟨habsent, -, hfull, hwhy⟩ | ⟨-, hb, -⟩ := hblocks
      · have husedu : ∀ b, u.used b ↔ s.used b := fun b => (hvu.used_iff b).trans (husedw b)
        exact hundone.notCreated (by rw [hvu.block_bitmap, hlenw]) (hvu.sb.trans hsbw)
          (fun b => (husedu b).2) (.inl ⟨.inr (.inr (.inl htaken)), husedu⟩)
      · obtain ⟨hlong, rfl⟩ | ⟨hfit, hroom, hzero, hlenu, hsbu, hmono⟩ := hwhy
        · exact hundone.notCreated hlenw hsbw (fun b => (husedw b).2)
            (.inl ⟨.inr (.inr (.inr ⟨hfull, (h.cannotGrow_iff hr).2 (.inl hlong)⟩)), husedw⟩)
        · refine hundone.notCreated (hlenu.trans hlenw) (hsbu.trans hsbw)
            (fun b hb => hmono b ((husedw b).2 hb)) (.inr ⟨?_, hzero⟩)
          constructor
          · rintro (hbits | hnone | htaken | ⟨-, hgrow⟩)
            · rw [hbits] at hb
              cases hb
            · exact absurd hnone hparent
            · exact absurd habsent htaken
            · obtain hlong | ⟨hfree, -⟩ := (h.cannotGrow_iff hr).1 hgrow
              · omega
              · exact hfree
          · exact fun hfree => .inr (.inr (.inr ⟨hfull,
              (h.cannotGrow_iff hr).2 (.inr ⟨hfree, Nat.lt_of_le_of_lt (Nat.zero_le _) hroom⟩)⟩))
      · cases hb
    · cases hrun
      refine .inr ⟨rfl, ?_⟩
      obtain ⟨-, hb, -⟩ | ⟨-, hb, -⟩ | ⟨habsent, -, hroom⟩ := hblocks
      · cases hb
      · cases hb
      · rintro (hbits | hnone | htaken | ⟨hfull, hgrow⟩)
        · rw [hbits] at hb
          cases hb
        · exact hparent hnone
        · exact htaken habsent
        · obtain ⟨hfit, hle⟩ := hroom hfull
          obtain hlong | ⟨hfree, hpos⟩ := (h.cannotGrow_iff hr).1 hgrow
          · omega
          · omega

end Create

/-! ## What a failed open should leave alone -/

section Undisturbed

variable {s t : FS} {m d k no : Nat} {r : Inode}

/-- Directory `d` has an entry at place `k` that is not erased. -/
def FS.LiveEntry (s : FS) (d k : Nat) : Prop :=
  s.allocated d ∧ s.IsDirectory d ∧ k < (s.copyOf d).i_size / 32 ∧
    entryType ((s.file d).from (32 * k)) ≠ FT_UNKNOWN

/-- The references to every inode other than the root, which is inode 0, the open inodes, the bitmaps
    and the live entries are the same. -/
structure FS.Undisturbed (s t : FS) : Prop where
  open_cnts : ∀ no, no ≠ 0 → t.openCount no = s.openCount no
  open_inodes : ∀ no, t.objectOf no = none ↔ s.objectOf no = none
  inode_bitmap : SameBits t.inode_bitmap s.inode_bitmap
  block_bitmap : SameBits t.block_bitmap s.block_bitmap
  live : ∀ d k, t.LiveEntry d k ↔ s.LiveEntry d k
  entries : ∀ d k, s.LiveEntry d k → Buf.Agree ((t.file d).from (32 * k)) ((s.file d).from (32 * k)) 0 32

theorem RootDir.liveEntry_iff (h : RootDir s m) :
    s.LiveEntry d k ↔ d = 0 ∧ k < m ∧ entryType ((s.file 0).from (32 * k)) ≠ FT_UNKNOWN := by
  obtain ⟨r, -, -, -, hsize, hcopy⟩ := h.object
  have hm : (s.copyOf 0).i_size / 32 = m := by rw [hcopy, hsize, Nat.mul_div_cancel_left m (by decide)]
  constructor
  · rintro ⟨ha, hdir, hk, htype⟩
    obtain rfl := (h.isDirectory_iff ha).1 hdir
    exact ⟨rfl, hm ▸ hk, htype⟩
  · rintro ⟨rfl, hk, htype⟩
    exact ⟨h.allocated_zero, (h.isDirectory_iff h.allocated_zero).2 rfl, hm.symm ▸ hk, htype⟩

/-- The objects of inodes other than the root are the same. -/
theorem SameObjects.inodes_iff (hsame : SameObjects s t) (h : RootDir s m) (ht : RootDir t m)
    (hno : no ≠ 0) (p : Nat) (i : Inode) (hi : i.i_no = no) :
    t.inodes p = some i ↔ s.inodes p = some i := by
  by_cases hp : p = s.root_dir_inode
  · obtain ⟨r, hr, hr0, -⟩ := h.object
    obtain ⟨r', hr', hr0', -⟩ := ht.object
    rw [hsame.root] at hr'
    rw [hp, hr, hr']
    constructor
    · rintro heq
      cases heq
      exact absurd (hi.symm.trans hr0') hno
    · rintro heq
      cases heq
      exact absurd (hi.symm.trans hr0) hno
  · rw [hsame.inodes p hp]

theorem RootDir.undisturbed (h : RootDir s m) (ht : RootDir t m) (hsame : SameObjects s t)
    (hfile : ∀ a < 32 * m, t.file 0 a = s.file 0 a) (hinode : SameBits t.inode_bitmap s.inode_bitmap)
    (hblock : SameBits t.block_bitmap s.block_bitmap) : s.Undisturbed t where
  open_cnts := fun no hno =>
    openCount_congr h.dir.inv.table ht.dir.inv.table fun p i hi => hsame.inodes_iff h ht hno p i hi
  open_inodes := fun no => by
    rw [objectOf_eq_none h.dir.inv.table, objectOf_eq_none ht.dir.inv.table]
    by_cases hno : no = 0
    · obtain ⟨r, hr, hr0, -⟩ := h.object
      obtain ⟨r', hr', hr0', -⟩ := ht.object
      exact ⟨fun hnone => absurd (hr0'.trans hno.symm) (hnone _ _ hr'),
        fun hnone => absurd (hr0.trans hno.symm) (hnone _ _ hr)⟩
    · exact ⟨fun hnone p i hp hi => hnone p i ((hsame.inodes_iff h ht hno p i hi).2 hp) hi,
        fun hnone p i hp hi => hnone p i ((hsame.inodes_iff h ht hno p i hi).1 hp) hi⟩
  inode_bitmap := hinode
  block_bitmap := hblock
  live := fun d k => by
    rw [h.liveEntry_iff, ht.liveEntry_iff]
    refine and_congr_right fun _ => and_congr_right fun hk => ?_
    have hagree : Buf.Agree ((t.file 0).from (32 * k)) ((s.file 0).from (32 * k)) 0 32 :=
      fun a _ ha => hfile _ (by omega)
    rw [entryType_congr hagree]
  entries := fun d k hlive a _ ha => by
    obtain ⟨rfl, hk, -⟩ := h.liveEntry_iff.1 hlive
    exact hfile _ (by omega)

theorem Visited.undisturbed (hv : Visited s t) (h : RootDir s m) : s.Undisturbed t := by
  refine h.undisturbed (hv.rootDir h) hv.sameObjects (fun a _ => by rw [hv.file_zero h]) ?_ ?_
  · rw [hv.inode_bitmap]
    exact .refl _
  · rw [hv.block_bitmap]
    exact .refl _

end Undisturbed

namespace Kernel

variable {P : Type} [DecidableEq P] {s s' : Kernel P} {p : P} {path : List Byte} {flag : Nat}

/-- Nothing that belongs to open files is different for process `p`. -/
structure Untouched (p : P) (s s' : Kernel P) : Prop where
  file_table : s'.file_table = s.file_table
  fd_table : s'.fd_table p = s.fd_table p
  fs : s.fs.Undisturbed s'.fs

omit [DecidableEq P] in
theorem getFreeSlotInGlobal_free {idx : Nat} (h : getFreeSlotInGlobal s = some idx) :
    (s.file_table idx).fd_inode = none := by
  have hfree := List.find?_some (p := fun i => (s.file_table i).fd_inode.isNone) h
  exact Option.isNone_iff_eq_none.1 hfree

omit [DecidableEq P] in
/-- A slot that was filled shows. -/
theorem not_untouched_of_slot {idx inode : Nat} (hslot : getFreeSlotInGlobal s = some idx)
    (hfilled : s'.file_table = Function.update s.file_table idx ⟨0, flag, some inode⟩) :
    ¬ Untouched p s s' := by
  intro h
  have hfree := getFreeSlotInGlobal_free hslot
  rw [← h.file_table, hfilled, Function.update_self] at hfree
  cases hfree

theorem Rooted.failed_create_iff (h : Rooted s) (hrun : Kernel.fileCreate p path flag s = .ok (none, s')) :
    Untouched p s s' ↔ getFreeSlotInGlobal s = none ∨ s.fs.CannotCreate path := by
  obtain ⟨m, hm⟩ := h.fs
  obtain ⟨r, hr, -⟩ := hm.object
  unfold Kernel.fileCreate at hrun
  rw [Prog.bind_of_ok (a := s) (t := s) rfl] at hrun
  cases hslot : getFreeSlotInGlobal s with
  | none =>
      rw [hslot] at hrun
      cases hrun
      exact ⟨fun _ => .inl rfl, fun _ => ⟨rfl, rfl, (Visited.refl hr).undisturbed hm⟩⟩
  | some idx =>
      rw [hslot] at hrun
      dsimp only at hrun
      rw [h.cwd] at hrun
      obtain ⟨o, s1, hcreate, hrest⟩ := Prog.bind_eq_ok.1 hrun
      obtain ⟨t, hcreate', rfl⟩ := onFs_eq_ok.1 hcreate
      obtain ⟨rfl, hleft⟩ | ⟨rfl, hcan⟩ := hm.create_outcome hcreate'
      · cases hrest
        constructor
        · exact fun hun => .inr (hleft.sameBits_iff.1 hun.fs.block_bitmap)
        · rintro (hnone | hcannot)
          · cases hnone
          · exact ⟨rfl, rfl, hm.undisturbed hleft.rootDir hleft.objects hleft.file hleft.inode_bitmap
              (hleft.sameBits_iff.2 hcannot)⟩
      · obtain ⟨fd, fdt, hinstall, -⟩ := pcbFdInstall_run p idx { s with
          fs := t
          file_table := Function.update s.file_table idx ⟨0, flag, some s.fs.next⟩ }
        have hrest' : pcbFdInstall p idx { s with
            fs := t
            file_table := Function.update s.file_table idx ⟨0, flag, some s.fs.next⟩ } = .ok (none, s') :=
          hrest
        rw [hinstall] at hrest'
        cases hrest'
        refine ⟨fun hun => absurd hun (not_untouched_of_slot hslot rfl), ?_⟩
        rintro (hnone | hcannot)
        · cases hnone
        · exact absurd hcannot hcan

theorem Rooted.failed_fileOpen_iff (h : Rooted s) (hrun : Kernel.fileOpen p path flag s = .ok (none, s')) :
    Untouched p s s' ↔ s.fs.resolve 0 path = none ∨
      (getFreeSlotInGlobal s = none ∧ s.fs.resolve 0 path = some 0) := by
  obtain ⟨m, hm⟩ := h.fs
  obtain ⟨-, -, hstop⟩ | ⟨r, t, hfound, ⟨rfl, hopen⟩ | ⟨q, rfl, ⟨hslot, hopen⟩ |
    ⟨idx, fd, fdt, hslot, -, hopen⟩⟩⟩ := h.fileOpen p path flag
  · rw [hstop] at hrun
    cases hrun
  · rw [hopen] at hrun
    cases hrun
    generalize s.fs.resolve 0 path = o at hfound
    cases hfound with
    | none hv => exact ⟨fun _ => .inl rfl, fun _ => ⟨rfl, rfl, hv.undisturbed hm⟩⟩
  · rw [hopen] at hrun
    cases hrun
    generalize s.fs.resolve 0 path = o at hfound
    cases hfound with
    | root hv => exact ⟨fun _ => .inr ⟨hslot, rfl⟩, fun _ => ⟨rfl, rfl, hv.undisturbed hm⟩⟩
    | file ho =>
        rename_i no
        -- the reference that the search took stays
        obtain ⟨j, hj, hno, hcnt⟩ := ho.object hm
        obtain ⟨-, -, -, ht⟩ := ho.openedOne hm
        constructor
        · intro hun
          have hsame := hun.fs.open_cnts no ho.ne_zero
          have hcount := openCount_object ht.dir.inv.table hj
          rw [hno] at hcount
          dsimp only at hsame
          omega
        · rintro (hnone | ⟨-, hzero⟩)
          · cases hnone
          · exact absurd (Option.some.inj hzero) ho.ne_zero
  · rw [hopen] at hrun
    cases hrun
    refine ⟨fun hun => absurd hun (not_untouched_of_slot hslot rfl), ?_⟩
    rintro (hnone | ⟨hfull, -⟩)
    · rw [hnone] at hfound
      cases hfound
    · rw [hslot] at hfull
      cases hfull

/-- A failed `sys_open` leaves no trace if and only if it failed before it had taken anything. -/
theorem failed_open_iff (h : Reached s) (hrun : sysOpen p path flag s = .ok (none, s')) :
    Untouched p s s' ↔ if flag &&& O_CREAT = O_CREAT then
        getFreeSlotInGlobal s = none ∨ s.fs.CannotCreate path
      else s.fs.resolve 0 path = none ∨
        (getFreeSlotInGlobal s = none ∧ s.fs.resolve 0 path = some 0) := by
  unfold sysOpen at hrun
  split at hrun
  · next hflag =>
    rw [if_pos hflag]
    exact h.rooted.failed_create_iff hrun
  · next hflag =>
    rw [if_neg hflag]
    exact h.rooted.failed_fileOpen_iff hrun

/-- A file that is there is not created. -/
theorem failed_open_dot : ∃ s s' : Kernel Unit, Booted s ∧
    sysOpen () [dotChar] O_CREAT s = .ok (none, s') ∧ Untouched () s s' := by
  obtain ⟨s, hs⟩ := exists_booted
  have hfit : FitsPath [dotChar] := fitsPath_of_length (by decide)
  have hlast : lastName [dotChar] = [dotChar] := by decide
  have hlook : s.fs.lookNo 0 (lastName [dotChar]) ≠ none := by
    rw [hlast, hs.lookNo_dot]
    exact Option.some_ne_none _
  have hcannot : getFreeSlotInGlobal s = none ∨ s.fs.CannotCreate [dotChar] :=
    .inr (.inr (.inr (.inl hlook)))
  have hreached : Reached s := ⟨s, [], hs, .nil⟩
  obtain ⟨s', hrun⟩ : ∃ s', sysOpen () [dotChar] O_CREAT s = .ok (none, s') := by
    obtain ⟨-, hrun⟩ | ⟨idx, m, -, -, ⟨hunfit, -⟩ | ⟨t, hrun, -⟩ | ⟨k, t, fd, fdt, hc, -⟩⟩ :=
      hs.rooted.fileCreate () [dotChar] O_CREAT
    · exact ⟨_, hrun⟩
    · exact absurd hfit hunfit
    · exact ⟨_, hrun⟩
    · exact absurd hc.absent hlook
  exact ⟨s, s', hs, hrun, (failed_open_iff hreached hrun).2 hcannot⟩

/-! ## The sixth open of one process -/

/-- The process has opened `n` files, and so has everybody. -/
structure OpenedTimes (n : Nat) (s : Kernel Unit) : Prop where
  rooted : Rooted s
  fds : ∀ fd, 3 ≤ fd → fd < 8 → (s.fd_table () fd = none ↔ 3 + n ≤ fd)
  slots : ∀ i, 3 ≤ i → i < 32 → ((s.file_table i).fd_inode = none ↔ 3 + n ≤ i)

/-- `sys_open` of the root directory. -/
theorem OpenedTimes.open_root {n : Nat} {s : Kernel Unit} (h : OpenedTimes n s) (hn : n ≤ 5) :
    getFreeSlotInGlobal s = some (3 + n) ∧
      ((n < 5 ∧ ∃ fd s', sysOpen () [slashChar] 0 s = .ok (some fd, s') ∧ OpenedTimes (n + 1) s') ∨
        (n = 5 ∧ ∃ s', sysOpen () [slashChar] 0 s = .ok (none, s'))) := by
  have hslot : getFreeSlotInGlobal s = some (3 + n) := by
    refine List.find?_range'_eq_some.2 ⟨?_, List.mem_range'_1.2 (by simp only [MAX_FILES_OPEN]; omega),
      fun i h3 hi => ?_⟩
    · exact Option.isNone_iff_eq_none.2 ((h.slots (3 + n) (by omega) (by omega)).2 (Nat.le_refl _))
    · rw [Bool.not_eq_true', Option.isNone_eq_false_iff, Option.isSome_iff_ne_none]
      exact fun hfree => absurd ((h.slots i h3 (by omega)).1 hfree) (by omega)
  refine ⟨hslot, ?_⟩
  obtain ⟨m, hm⟩ := h.rooted.fs
  have hfit : FitsPath [slashChar] := fitsPath_of_length (by decide)
  obtain ⟨hunfit, -⟩ | ⟨r, t, hfound, hsearch⟩ := hm.searchFile [slashChar]
  · exact absurd hfit hunfit
  obtain ⟨hv, rfl⟩ : Visited s.fs t ∧ r = some s.fs.root_dir_inode := by
    cases hfound with
    | root hv hshared => exact ⟨hv, rfl⟩
    | file ho => exact absurd rfl ho.ne_zero
  let s1 : Kernel Unit := { s with
    fs := t
    file_table := Function.update s.file_table (3 + n) ⟨0, 0, some s.fs.root_dir_inode⟩ }
  have hopen : sysOpen () [slashChar] 0 s = pcbFdInstall () (3 + n) s1 := by
    unfold Kernel.sysOpen Kernel.fileOpen
    rw [if_neg (by decide), Prog.bind_of_ok (a := s) (t := s) rfl, h.rooted.cwd,
      Prog.bind_of_ok (run_onFs hsearch), hslot]
    rfl
  rw [hopen]
  unfold pcbFdInstall
  rw [Prog.bind_of_ok (a := s1) (t := s1) rfl]
  by_cases hlt : n < 5
  · have hfd : (List.range' 3 (MAX_FILES_OPEN_PER_PROC - 3)).find? (fun fd => (s1.fd_table () fd).isNone) =
        some (3 + n) := by
      refine List.find?_range'_eq_some.2 ⟨?_, List.mem_range'_1.2
        (by simp only [MAX_FILES_OPEN_PER_PROC]; omega), fun fd h3 hi => ?_⟩
      · exact Option.isNone_iff_eq_none.2 ((h.fds (3 + n) (by omega) (by omega)).2 (Nat.le_refl _))
      · rw [Bool.not_eq_true', Option.isNone_eq_false_iff, Option.isSome_iff_ne_none]
        exact fun hfree => absurd ((h.fds fd h3 (by omega)).1 hfree) (by omega)
    rw [hfd]
    refine .inl ⟨hlt, 3 + n, _, rfl, ⟨⟨m, hv.rootDir hm⟩, h.rooted.cwd⟩, fun fd h3 h8 => ?_,
      fun i h3 h32 => ?_⟩
    · show Function.update s.fd_table () (Function.update (s.fd_table ()) (3 + n) (some (3 + n))) () fd
        = none ↔ _
      rw [Function.update_self]
      by_cases heq : fd = 3 + n
      · rw [heq, Function.update_self]
        exact ⟨fun hnone => absurd hnone (Option.some_ne_none _), fun hle => by omega⟩
      · rw [Function.update_of_ne heq, h.fds fd h3 h8]
        omega
    · show (Function.update s.file_table (3 + n) ⟨0, 0, some s.fs.root_dir_inode⟩ i).fd_inode = none ↔ _
      by_cases heq : i = 3 + n
      · rw [heq, Function.update_self]
        exact ⟨fun hnone => absurd hnone (Option.some_ne_none _), fun hle => by omega⟩
      · rw [Function.update_of_ne heq, h.slots i h3 h32]
        omega
  · have hfd : (List.range' 3 (MAX_FILES_OPEN_PER_PROC - 3)).find? (fun fd => (s1.fd_table () fd).isNone) =
        none := by
      refine List.find?_eq_none.2 fun fd hmem hnone => ?_
      have hin := List.mem_range'_1.1 hmem
      simp only [MAX_FILES_OPEN_PER_PROC] at hin
      have hle := (h.fds fd hin.1 (by omega)).1 (Option.isNone_iff_eq_none.1 hnone)
      omega
    rw [hfd]
    exact .inr ⟨by omega, _, rfl⟩

theorem Booted.openedTimes {s : Kernel Unit} (h : Booted s) : ∀ n ≤ 5, ∃ t,
    Run Call.Step s (List.replicate n (.open () [slashChar] 0)) t ∧ OpenedTimes n t := by
  intro n hn
  induction n with
  | zero =>
      refine ⟨s, .nil, h.rooted, fun fd h3 _ => ?_, fun i h3 _ => ?_⟩
      · exact ⟨fun _ => h3, fun _ => h.fd_table () fd⟩
      · exact ⟨fun _ => h3, fun _ => h.file_table i⟩
  | succ n ih =>
      obtain ⟨t, hrun, ht⟩ := ih (by omega)
      obtain ⟨-, ⟨-, fd, u, hopen, hu⟩ | ⟨hfive, -⟩⟩ := ht.open_root (by omega)
      · refine ⟨u, ?_, hu⟩
        rw [List.replicate_succ']
        refine .snoc hrun ⟨trivial, ?_⟩
        show (sysOpen () [slashChar] 0 >>= fun _ => pure ()) t = .ok ((), u)
        rw [Prog.bind_of_ok hopen]
        rfl
      · omega

/-- The sixth file that a process opens has no descriptor, but it keeps a slot. -/
theorem not_failed_open_sixth : ∃ s0 s s' : Kernel Unit, Booted s0 ∧
    Run Call.Step s0 (List.replicate 5 (.open () [slashChar] 0)) s ∧
    sysOpen () [slashChar] 0 s = .ok (none, s') ∧ ¬ Untouched () s s' := by
  obtain ⟨s0, h0⟩ := exists_booted
  obtain ⟨s, hrun, hs⟩ := h0.openedTimes 5 (Nat.le_refl 5)
  obtain ⟨hslot, ⟨hlt, -⟩ | ⟨-, s', hopen⟩⟩ := hs.open_root (Nat.le_refl 5)
  · omega
  refine ⟨s0, s, s', h0, hrun, hopen, fun hun => ?_⟩
  have hopen' : fileOpen () [slashChar] 0 s = .ok (none, s') := hopen
  obtain hnone | ⟨hfull, -⟩ := (hs.rooted.failed_fileOpen_iff hopen').1 hun
  · exact Option.some_ne_none 0 hnone
  · rw [hslot] at hfull
    cases hfull

end Kernel

end RecoverOS
