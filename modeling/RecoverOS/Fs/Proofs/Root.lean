import RecoverOS.Fs.Proofs.Search

set_option autoImplicit false

/-! # The root directory and the calls of the inode layer

A call on another inode leaves the entries of the root directory alone: no block of the root is written,
and no inode becomes a directory. -/

namespace RecoverOS

/-! ## What is written -/

section Bytes

variable {s t : FS} {m no p k file_type : Nat} {i i' j : Inode}

/-- The bytes of a file whose blocks are not written. -/
theorem copy_byte (hd : ∀ k, j.slot s.disk k ≠ 0 → Buf.Agree t.disk s.disk (512 * j.slot s.disk k) 512)
    (a : Nat) : j.byte t.disk a = j.byte s.disk a := by
  have hblocks : ∀ k, j.blocks t.disk k = j.blocks s.disk k := fun k =>
    Inode.blocks_congr (fun _ _ => rfl) (fun h12 => by
      have h := hd 140
      rw [Inode.slot_indirect] at h
      exact h h12) k
  unfold Inode.byte
  rw [hblocks]
  split
  · rfl
  · next h0 =>
    have hlt : a / 512 < 140 := by
      by_contra hge
      exact h0 (Inode.blocks_beyond (by omega))
    have h := hd (a / 512)
    rw [Inode.slot_block hlt] at h
    exact h h0 _ (by omega) (by omega)

/-- Creating an inode writes no block in use. -/
theorem createInode_block (g : Geometry s) (hk : k < s.inode_bitmap.size) {b : Nat} (hb : s.used b) :
    Buf.Agree (s.createInode k file_type).disk s.disk (512 * b) 512 := by
  intro a h1 h2
  have hlt : k < 4096 := by
    rw [← inode_bitmap_size g]
    exact hk
  have habove := FS.used_above g hb hlt
  have hdata := hb.1
  have hge := g.data_lba
  exact createInode_disk g hk (by omega) (by omega)

/-- Writing to an inode makes no directory. -/
theorem types_inodeWrite {count pos : Nat} {buf : Buf} {r : Int} (hinv : Inv s)
    (hp : s.inodes p = some i) (hrun : inodeWrite p buf count pos s = .ok (r, t))
    (ha : t.allocated no) (htype : (t.record no).f_type = FT_DIRECTORY) :
    s.allocated no ∧ (s.record no).f_type = FT_DIRECTORY := by
  obtain ⟨hinv', i', hframe, -⟩ := inodeWrite_cases hinv hp hrun
  have hch := hframe.changes
  have ha' := (FS.allocated_congr hch.inode_bitmap).1 ha
  refine ⟨ha', ?_⟩
  by_cases hno : no = i.i_no
  · subst hno
    have hsync := (hinv'.synced p i' hch.object').type
    rw [hch.no] at hsync
    rw [← copy_type hinv (hinv.copy hp), ← hframe.type, ← hsync]
    exact htype
  · rwa [hch.record_other ha'.1 hno] at htype

end Bytes

/-! ## What is left of the root directory -/

/-- The root directory's file is as it was, and no inode became a directory. -/
structure RootFrame (s t : FS) : Prop where
  root : t.root_dir_inode = s.root_dir_inode
  object : t.inodes s.root_dir_inode = s.inodes s.root_dir_inode
  bytes : ∀ r, s.inodes s.root_dir_inode = some r → ∀ a, r.byte t.disk a = r.byte s.disk a
  types : ∀ no, t.allocated no → (t.record no).f_type = FT_DIRECTORY →
    s.allocated no ∧ (s.record no).f_type = FT_DIRECTORY

namespace RootFrame

variable {s t u : FS} {m p q k : Nat} {i i' : Inode}

theorem trans (h : RootFrame s t) (h' : RootFrame t u) : RootFrame s u where
  root := h'.root.trans h.root
  object := by
    have ho := h'.object
    rw [h.root] at ho
    exact ho.trans h.object
  bytes := fun r hr a => by
    have hr' : t.inodes t.root_dir_inode = some r := by rw [h.root, h.object, hr]
    exact (h'.bytes r hr' a).trans (h.bytes r hr a)
  types := fun no ha htype => by
    obtain ⟨ha', htype'⟩ := h'.types no ha htype
    exact h.types no ha' htype'

theorem isDir (h : RootFrame s t) (hs : RootDir s m) (hinv : Inv t) (hcov : Covered t) :
    IsDir t t.root_dir_inode m (s.file 0) := by
  obtain ⟨r, hr, htype, hsize, hbytes⟩ := hs.dir.object
  refine ⟨hinv, hcov, r, ?_, htype, hsize, fun a ha => (h.bytes r hr a).trans (hbytes a ha)⟩
  rw [h.root, h.object, hr]

theorem only (h : RootFrame s t) (hs : RootDir s m) (no : Nat) (ha : t.allocated no)
    (htype : (t.record no).f_type = FT_DIRECTORY) : no = 0 := by
  obtain ⟨ha', htype'⟩ := h.types no ha htype
  exact hs.only no ha' htype'

theorem rootDir (h : RootFrame s t) (hs : RootDir s m) (hinv : Inv t) (hcov : Covered t)
    (hlinks : ∀ k < m, s.allocated (entryNo ((s.file 0).from (32 * k))) →
      t.allocated (entryNo ((s.file 0).from (32 * k)))) : RootDir t m :=
  RootDir.of_dir (h.isDir hs hinv hcov) (hs.links.mono hlinks) (h.only hs)

/-- The entries are the same. -/
theorem file (h : RootFrame s t) (hs : RootDir s m) (ht : t.OpenTable) : t.file 0 = s.file 0 := by
  obtain ⟨r, hr, hr0, -, -, hcopy⟩ := hs.object
  have hr' : t.inodes t.root_dir_inode = some r := by rw [h.root, h.object, hr]
  have hcopy' := copyOf_object ht hr'
  rw [hr0] at hcopy'
  funext a
  unfold FS.file
  rw [hcopy, hcopy']
  exact h.bytes r hr a

/-- Nothing but objects other than the root changed. -/
theorem of_objects (hroot : t.root_dir_inode = s.root_dir_inode)
    (hobj : t.inodes s.root_dir_inode = s.inodes s.root_dir_inode) (hdisk : t.disk = s.disk)
    (hsb : t.sb = s.sb) (hbm : t.inode_bitmap = s.inode_bitmap) : RootFrame s t where
  root := hroot
  object := hobj
  bytes := fun r _ a => by rw [hdisk]
  types := fun no ha htype => by
    have hrec : t.record no = s.record no := by
      unfold FS.record FS.recordAddr
      rw [hdisk, hsb]
    rw [hrec] at htype
    exact ⟨(FS.allocated_congr hbm).1 ha, htype⟩

theorem createInode {btmp : Bitmap} (hs : RootDir s m)
    (h : bitmapAllocABit s.inode_bitmap = some (k, btmp)) : RootFrame s (s.createInode k FT_REGULAR) where
  root := rfl
  object := by
    obtain ⟨r, hr, -⟩ := hs.object
    have hne : s.root_dir_inode ≠ s.next := Nat.ne_of_lt (hs.dir.inv.table.fresh _ _ hr)
    exact Function.update_of_ne hne _ _
  bytes := fun r hr => by
    obtain ⟨hk, -⟩ := bitmapAllocABit_eq_some h
    exact copy_byte fun n hn => createInode_block hs.dir.inv.geometry hk
      (hs.dir.inv.used_slot (hs.dir.inv.copy hr) hn)
  types := fun no ha htype => by
    have hinv := inv_createInode hs.dir.inv h (by decide : FT_REGULAR < 2 ^ 32)
    by_cases hno : no = k
    · have hobj : (s.createInode k FT_REGULAR).inodes s.next = some (newInode k FT_REGULAR) :=
        Function.update_self ..
      have hsync := (hinv.synced _ _ hobj).type
      rw [hno] at htype
      exact absurd (hsync.symm.trans htype) (by decide : ¬ FT_REGULAR = FT_DIRECTORY)
    · obtain ⟨hc, -⟩ := copy_createInode hs.dir.inv h hno ⟨ha, .inr rfl⟩
      exact ⟨hc.1, (copy_type hs.dir.inv hc).symm.trans htype⟩

theorem inodeWrite {count pos : Nat} {buf : Buf} {r : Int} (hs : RootDir s m)
    (hp : s.inodes p = some i) (hne : p ≠ s.root_dir_inode)
    (hrun : inodeWrite p buf count pos s = .ok (r, t)) : RootFrame s t := by
  obtain ⟨hinv', i', hframe, -⟩ := inodeWrite_cases hs.dir.inv hp hrun
  have hch := hframe.changes
  refine ⟨hch.root, hch.inodes_other hne.symm, fun r hr => ?_, fun no ha htype =>
    types_inodeWrite hs.dir.inv hp hrun ha htype⟩
  have hc := hs.dir.inv.copy hr
  have hno : r.i_no ≠ i.i_no := fun heq =>
    hne (hs.dir.inv.table.one_object _ _ _ _ hp hr heq.symm)
  refine copy_byte fun n hn => hframe.foreign _ (hs.dir.inv.used_slot hc hn) fun n' heq => ?_
  exact hno (hs.dir.inv.slot_inj hc (hs.dir.inv.copy hp) hn heq.symm).1

theorem inodeFree (hs : RootDir s m) (hp : s.inodes p = some i) (hne : p ≠ s.root_dir_inode)
    (hcnt : i.i_open_cnts = 1) (hrun : inodeFree p s = .ok ((), t)) :
    RootFrame s t ∧ t.inodes = Function.update s.inodes p none ∧ t.next = s.next := by
  obtain ⟨s2, hfreed, hrun2⟩ := inodeFree_freed hs.dir.inv hp hne hcnt
  rw [hrun] at hrun2
  cases hrun2
  obtain ⟨t', hrun', -, -, -, -, -, hcopies⟩ := inodeFree_run hs.dir.inv hp hne hcnt
  rw [hrun] at hrun'
  cases hrun'
  have hinodes : (s2.dropInode p).inodes = Function.update s.inodes p none := by
    rw [hfreed.frame]
    rfl
  refine ⟨⟨by rw [hfreed.frame]; rfl, ?_, fun r hr => ?_, fun no ha htype => ?_⟩, hinodes,
    by rw [hfreed.frame]; rfl⟩
  · rw [hinodes, Function.update_of_ne hne.symm]
  · have hc := hs.dir.inv.copy hr
    have hci := hs.dir.inv.copy hp
    have hno : r.i_no ≠ i.i_no := fun heq =>
      hne (hs.dir.inv.table.one_object _ _ _ _ hp hr heq.symm)
    refine copy_byte (t := s2.dropInode p) fun n hn a h1 h2 => ?_
    have hused := hs.dir.inv.used_slot hc hn
    have hge := hs.dir.inv.geometry.data_lba
    have hge' := hs.dir.inv.geometry.table_lba
    have hdata := hused.1
    refine hfreed.disk a (Nat.le_trans ?_ h1) fun n' _ hn' h0 => ?_
    · show 512 * s.sb.inode_bitmap_lba ≤ _
      omega
    · refine sector_apart (fun heq => ?_) h1 h2
      rw [← Inode.slot_block hn'] at heq
      exact hno (hs.dir.inv.slot_inj hc hci hn heq).1
  · obtain ⟨hc, -⟩ := hcopies no _ ⟨ha, .inr rfl⟩
    exact ⟨hc.1, (copy_type hs.dir.inv hc).symm.trans htype⟩

end RootFrame

/-! ## Linking -/

section Link

variable {s t : FS} {m p k : Nat} {e : DirEntry}

theorem Visited.inodes_other (h : Visited s t) (hp : p ≠ s.root_dir_inode) : t.inodes p = s.inodes p := by
  obtain ⟨r, a, b, -, rfl⟩ := h
  exact Function.update_of_ne hp _ _

/-- The root directory after an entry was written. -/
theorem IsDir.write_root {bytes : Buf} (h : IsDir s s.root_dir_inode m bytes)
    (hone : ∀ no, s.allocated no → (s.record no).f_type = FT_DIRECTORY → no = 0) (hk : k ≤ m)
    (buf : Buf) :
    ∃ r t, RecoverOS.inodeWrite s.root_dir_inode buf sizeofDirEntry (32 * k) s = .ok (r, t) ∧
      t.root_dir_inode = s.root_dir_inode ∧ t.inode_bitmap = s.inode_bitmap ∧
      (∀ p, p ≠ s.root_dir_inode → t.inodes p = s.inodes p) ∧
      (∀ no, t.allocated no → (t.record no).f_type = FT_DIRECTORY → no = 0) ∧
      (∀ b, s.used b → t.used b) ∧
      ((r = 32 ∧ IsDir t t.root_dir_inode (max m (k + 1)) (bytes.patch (32 * k) 32 buf)) ∨
        (r = -1 ∧ k = m ∧ 32 * m % 512 = 0 ∧ IsDir t t.root_dir_inode m bytes)) := by
  obtain ⟨i, hp, -⟩ := h.object
  obtain ⟨r, t, hrun, hbm, hres⟩ := h.inodeWrite hk buf
  obtain ⟨-, i', hframe, -⟩ := inodeWrite_cases h.inv hp hrun
  have hch := hframe.changes
  refine ⟨r, t, hrun, hch.root, hbm, fun p hp => hch.inodes_other hp, fun no ha htype => ?_,
    hframe.used_mono, ?_⟩
  · obtain ⟨ha', htype'⟩ := types_inodeWrite h.inv hp hrun ha htype
    exact hone no ha' htype'
  · rw [hch.root]
    exact hres

/-- A name that is taken is not linked. -/
theorem RootDir.dirLink_taken (h : RootDir s m) (hlen : e.filename.length < MAX_FILE_NAME_LEN)
    (hlook : s.lookNo 0 e.filename ≠ none) :
    ∃ t, RecoverOS.dirLink s.root_dir_inode e s = .ok (false, t) ∧ Visited s t := by
  obtain ⟨no, hno⟩ := Option.ne_none_iff_exists'.1 hlook
  obtain ⟨r, u, hfound, hrun⟩ := h.dirLookUp hlen
  rw [hno] at hfound
  cases r with
  | none => cases hfound
  | some found =>
      obtain ⟨t, hclose, hv⟩ := hfound.close h
      refine ⟨t, ?_, hv⟩
      unfold RecoverOS.dirLink
      rw [Prog.bind_of_ok hrun]
      show (inodeClose found.1 >>= _) u = _
      rw [Prog.bind_of_ok hclose]
      rfl

/-- The slot that `dir_link` writes: the first that is erased, or the one after the last. -/
theorem exists_linkSlot (s : FS) (m : Nat) : ∃ k ≤ m,
    (findEntry (fun b => entryType b == FT_UNKNOWN) (s.file 0) m 0).getD (32 * m) = 32 * k ∧
      (k < m → entryType ((s.file 0).from (32 * k)) = FT_UNKNOWN) ∧
      (k = m → ∀ l < m, entryType ((s.file 0).from (32 * l)) ≠ FT_UNKNOWN) := by
  cases hfree : findEntry (fun b => entryType b == FT_UNKNOWN) (s.file 0) m 0 with
  | none =>
      refine ⟨m, Nat.le_refl m, rfl, fun hlt => absurd hlt (Nat.lt_irrefl m), fun _ l hl => ?_⟩
      have hnot := findEntry_none hfree hl
      rw [Nat.zero_add] at hnot
      simpa using hnot
  | some o =>
      obtain ⟨hunknown, k, hk, ho⟩ := findEntry_some hfree
      rw [Nat.zero_add] at ho
      rw [ho] at hunknown
      exact ⟨k, Nat.le_of_lt hk, ho, fun _ => by simpa using hunknown, fun heq => by omega⟩

/-- A name that is not taken is written to that slot. -/
theorem RootDir.dirLink_absent (h : RootDir s m) (hlen : e.filename.length < MAX_FILE_NAME_LEN)
    (hlook : s.lookNo 0 e.filename = none)
    (hslot : (findEntry (fun b => entryType b == FT_UNKNOWN) (s.file 0) m 0).getD (32 * m) = 32 * k) :
    RecoverOS.dirLink s.root_dir_inode e s = (do
      let r ← RecoverOS.inodeWrite s.root_dir_inode e.encode sizeofDirEntry (32 * k)
      pure (r != -1) : Prog FS Bool) s := by
  have hm := h.dir.le
  unfold RecoverOS.dirLink
  rw [Prog.bind_of_ok (h.dirLookUp_none hlen hlook)]
  refine (h.dir.linkLoop (l := m) (by omega) (by show m < 2240 + 2; omega) _).trans ?_
  rw [hslot]

/-- `dir_link` with the root directory: nothing is linked, or the entry is in a slot that was free or at
    the end, and its name was absent. -/
theorem RootDir.dirLink (h : RootDir s m) (hlen : e.filename.length < MAX_FILE_NAME_LEN)
    (htype : e.f_type = FT_REGULAR) (ha : s.allocated e.i_no)
    (hnew : ∀ k < m, entryNo ((s.file 0).from (32 * k)) ≠ e.i_no) :
    ∃ b t, dirLink s.root_dir_inode e s = .ok (b, t) ∧ t.root_dir_inode = s.root_dir_inode ∧
      t.inode_bitmap = s.inode_bitmap ∧ (∀ p, p ≠ s.root_dir_inode → t.inodes p = s.inodes p) ∧
      ((b = false ∧ (s.lookNo 0 e.filename ≠ none ∨ 32 * m % 512 = 0) ∧ RootDir t m ∧
          ∀ a < 32 * m, t.file 0 a = s.file 0 a) ∨
        (b = true ∧ s.lookNo 0 e.filename = none ∧ ∃ k ≤ m,
          (k < m → entryType ((s.file 0).from (32 * k)) = FT_UNKNOWN) ∧ RootDir t (max m (k + 1)) ∧
          ∀ a < 32 * max m (k + 1), t.file 0 a = (s.file 0).patch (32 * k) 32 e.encode a)) := by
  cases hlook : s.lookNo 0 e.filename with
  | some no =>
      obtain ⟨t, hrun, hv⟩ := h.dirLink_taken hlen (hlook ▸ Option.some_ne_none no)
      exact ⟨false, t, hrun, hv.root, hv.inode_bitmap, fun p hp => hv.inodes_other hp,
        .inl ⟨rfl, .inl (Option.some_ne_none no), hv.rootDir h, fun a _ => congrFun (hv.file_zero h) a⟩⟩
  | none =>
      obtain ⟨k, hk, hslot, hfree, -⟩ := exists_linkSlot s m
      obtain ⟨r, t, hwrite, hroot, hbm, hother, hone, -, hres⟩ := h.dir.write_root h.only hk e.encode
      have hrun : RecoverOS.dirLink s.root_dir_inode e s = .ok (r != -1, t) := by
        rw [h.dirLink_absent hlen hlook hslot, Prog.bind_of_ok hwrite]
        rfl
      rcases hres with ⟨rfl, hdir⟩ | ⟨rfl, -, hblocks, hdir⟩
      · have hno : entryNo e.encode = e.i_no :=
          DirEntry.entryNo_encode (Nat.lt_trans ha.1 (by decide))
        have htype' : entryType e.encode = FT_REGULAR := by
          have hput := @entryType_putDirEntry Buf.zero 0 e.i_no e.f_type e.filename (by rw [htype]; decide)
          rw [Buf.from_zero, htype] at hput
          unfold DirEntry.encode
          rwa [htype]
        have hlinks : Links s.allocated (max m (k + 1)) ((s.file 0).patch (32 * k) 32 e.encode) := by
          refine h.links.put hk (fun l hl _ => h.links.ok l hl) (hno ▸ ha) (fun hunknown => ?_)
            fun _ l hl _ => hno ▸ hnew l hl
          rw [htype'] at hunknown
          cases hunknown
        refine ⟨true, t, hrun, hroot, hbm, hother, .inr ⟨rfl, rfl, k, hk, hfree, ?_, fun a ha =>
          hdir.file_zero ha⟩⟩
        exact RootDir.of_dir hdir (hlinks.mono fun _ _ => (FS.allocated_congr hbm).2) hone
      · refine ⟨false, t, hrun, hroot, hbm, hother,
          .inl ⟨rfl, .inr hblocks, ?_, fun a ha => hdir.file_zero ha⟩⟩
        exact RootDir.of_dir hdir (h.links.mono fun _ _ => (FS.allocated_congr hbm).2) hone

end Link

/-! ## Freeing and creating -/

/-- No object but the root's changed. -/
structure SameObjects (s t : FS) : Prop where
  root : t.root_dir_inode = s.root_dir_inode
  inodes : ∀ p, p ≠ s.root_dir_inode → t.inodes p = s.inodes p

theorem SameObjects.trans {s t u : FS} (h : SameObjects s t) (h' : SameObjects t u) : SameObjects s u where
  root := h'.root.trans h.root
  inodes := fun p hp => (h'.inodes p (h.root ▸ hp)).trans (h.inodes p hp)

theorem Visited.sameObjects {s t : FS} (h : Visited s t) : SameObjects s t :=
  ⟨h.root, fun _ hp => h.inodes_other hp⟩

section Create

variable {s t u : FS} {m p k : Nat} {i : Inode} {path : List Byte}

/-- Deleting an inode that no entry names. -/
theorem RootDir.free (h : RootDir s m) (hp : s.inodes p = some i) (hne : p ≠ s.root_dir_inode)
    (hcnt : i.i_open_cnts = 1) (hun : ∀ k < m, entryNo ((s.file 0).from (32 * k)) ≠ i.i_no) :
    ∃ t, inodeFree p s = .ok ((), t) ∧ RootDir t m ∧ t.root_dir_inode = s.root_dir_inode ∧
      t.inodes = Function.update s.inodes p none := by
  obtain ⟨t, hrun, hinv, hbm, -, -, -, hcopies⟩ := inodeFree_run h.dir.inv hp hne hcnt
  obtain ⟨hframe, hinodes, -⟩ := RootFrame.inodeFree h hp hne hcnt hrun
  have hcov : Covered t := covered_of_copies h.dir.covered fun no j hc =>
    .inr ⟨j, (hcopies no j hc).1, Nat.le_refl _, Inode.blocks_of_slot (hcopies no j hc).2⟩
  refine ⟨t, hrun, hframe.rootDir h hinv hcov fun l hl ha => ?_, hframe.root, hinodes⟩
  refine ⟨ha.1, ?_⟩
  rw [hbm, bitmapRead_bitmapSet]
  simp [hun l hl, ha.2]

theorem RootDir.createInode {btmp : Bitmap} (h : RootDir s m)
    (hb : bitmapAllocABit s.inode_bitmap = some (k, btmp)) :
    RootDir (s.createInode k FT_REGULAR) m ∧ (s.createInode k FT_REGULAR).file 0 = s.file 0 := by
  obtain ⟨hk, -⟩ := bitmapAllocABit_eq_some hb
  have hft : FT_REGULAR < 2 ^ 32 := by decide
  have hinv := inv_createInode h.dir.inv hb hft
  have hframe := RootFrame.createInode h hb
  refine ⟨hframe.rootDir h hinv (covered_createInode h.dir.inv h.dir.covered hb hft) fun l _ ha => ?_,
    hframe.file h hinv.table⟩
  exact (allocated_createInode h.dir.inv.geometry hk).2 (.inl ha)

/-- What `create_file_or_directory` leaves when it returns the inode at `p`, which got number `k`. -/
structure Created (s : FS) (m : Nat) (path : List Byte) (p k : Nat) (t : FS) : Prop where
  fresh : ¬ s.allocated k
  pointer : s.inodes p = none
  root : t.root_dir_inode = s.root_dir_inode
  object : t.inodes p = some (newInode k FT_REGULAR)
  others : ∀ q, q ≠ p → q ≠ s.root_dir_inode → t.inodes q = s.inodes q
  parent : s.resolveParent 0 path ≠ none
  absent : s.lookNo 0 (lastName path) = none
  linked : ∃ l ≤ m, (l < m → entryType ((s.file 0).from (32 * l)) = FT_UNKNOWN) ∧
    RootDir t (max m (l + 1)) ∧ ∀ a < 32 * max m (l + 1), t.file 0 a =
      (s.file 0).patch (32 * l) 32 (⟨lastName path, k, FT_REGULAR⟩ : DirEntry).encode a

/-- A new inode is in the table and no entry names it. -/
theorem RootDir.created_object {btmp : Bitmap} (h : RootDir s m)
    (hb : bitmapAllocABit s.inode_bitmap = some (k, btmp)) (hv : Visited (s.createInode k FT_REGULAR) t) :
    t.inodes s.next = some (newInode k FT_REGULAR) ∧ s.next ≠ t.root_dir_inode ∧
      t.allocated k ∧ t.file 0 = s.file 0 ∧ ¬ s.allocated k ∧
      ∀ l < m, entryNo ((s.file 0).from (32 * l)) ≠ k := by
  obtain ⟨r, hr, -⟩ := h.object
  obtain ⟨hk, hclear, -⟩ := bitmapAllocABit_eq_some hb
  obtain ⟨h1, hfile1⟩ := h.createInode hb
  have hne : s.next ≠ s.root_dir_inode := (Nat.ne_of_lt (h.dir.inv.table.fresh _ _ hr)).symm
  have hnot : ¬ s.allocated k := by
    rintro ⟨-, hset⟩
    rw [hclear] at hset
    cases hset
  refine ⟨(hv.inodes_other hne).trans (Function.update_self ..), fun heq => hne (heq.trans hv.root),
    (FS.allocated_congr hv.inode_bitmap).2 ((allocated_createInode h.dir.inv.geometry hk).2 (.inr rfl)),
    (hv.file_zero h1).trans hfile1, hnot, fun l hl heq => hnot (heq ▸ h.links.ok l hl)⟩

/-- Why `create_file_or_directory` may return `NULL`: no inode is free, there is no such directory or the
    name is taken in it, or the directory has no room. -/
def NoRoom (s : FS) (m : Nat) (path : List Byte) : Prop :=
  bitmapAllocABit s.inode_bitmap = none ∨ s.resolveParent 0 path = none ∨
    s.lookNo 0 (lastName path) ≠ none ∨ 32 * m % 512 = 0

/-- `create_file_or_directory` up to its `dir_link`. -/
theorem RootDir.create_run (h : RootDir s m) (path : List Byte) :
    (bitmapAllocABit s.inode_bitmap = none ∧
        createFileOrDirectory 0 path FT_REGULAR s = .ok (none, s)) ∨
      ∃ k btmp, bitmapAllocABit s.inode_bitmap = some (k, btmp) ∧
        ((¬ FitsPath path ∧ createFileOrDirectory 0 path FT_REGULAR s = .error .undefined) ∨
          ∃ t, Visited (s.createInode k FT_REGULAR) t ∧ (lastName path).length < MAX_FILE_NAME_LEN ∧
            ((s.resolveParent 0 path = none ∧ createFileOrDirectory 0 path FT_REGULAR s = (do
                inodeFree s.next
                pure none : Prog FS (Option Nat)) t) ∨
              (s.resolveParent 0 path ≠ none ∧ createFileOrDirectory 0 path FT_REGULAR s = (do
                let linked ← RecoverOS.dirLink s.root_dir_inode ⟨lastName path, k, FT_REGULAR⟩
                if linked = false then do
                  inodeFree s.next
                  inodeClose s.root_dir_inode
                  pure none
                else pure (some s.next) : Prog FS (Option Nat)) t))) := by
  unfold createFileOrDirectory
  cases hb : bitmapAllocABit s.inode_bitmap with
  | none =>
      refine .inl ⟨rfl, ?_⟩
      rw [Prog.bind_of_ok (inodeAlloc_none hb)]
      rfl
  | some res =>
      obtain ⟨k, btmp⟩ := res
      obtain ⟨h1, hfile1⟩ := h.createInode hb
      have hobj1 : (s.createInode k FT_REGULAR).inodes s.next = some (newInode k FT_REGULAR) :=
        Function.update_self ..
      refine .inr ⟨k, btmp, rfl, ?_⟩
      rw [Prog.bind_of_ok (inodeAlloc_some h.dir.inv.geometry hb)]
      dsimp only
      rw [Prog.bind_of_ok (run_inodeAt hobj1)]
      by_cases hlen : (lastName path).length < MAX_FILE_NAME_LEN
      · rw [Prog.run_require_bind hlen]
        obtain ⟨hunfit, -, hstop⟩ | ⟨t, hv, hsearch⟩ := h1.searchFile_parent path
        · exact .inl ⟨hunfit, Prog.bind_of_error hstop _⟩
        · refine .inr ⟨t, hv, hlen, ?_⟩
          rw [Prog.bind_of_ok hsearch, h.resolveParent_congr h1 (h.lookNo_congr h1 hfile1)]
          cases hparent : s.resolveParent 0 path with
          | none => exact .inl ⟨rfl, rfl⟩
          | some parent => exact .inr ⟨Option.some_ne_none _, rfl⟩
      · refine .inl ⟨fun hfit => hlen hfit.lastName, ?_⟩
        rw [Prog.run_require_bind_not hlen]

/-- Deleting an inode that was just created. -/
theorem RootDir.free_new (h : RootDir s m) (hp : s.inodes p = some (newInode k FT_REGULAR))
    (hne : p ≠ s.root_dir_inode) (hun : ∀ l < m, entryNo ((s.file 0).from (32 * l)) ≠ k) :
    ∃ t, inodeFree p s = .ok ((), t) ∧ RootDir t m ∧ t.root_dir_inode = s.root_dir_inode ∧
      t.inodes = Function.update s.inodes p none ∧ t.file 0 = s.file 0 ∧
      t.inode_bitmap = bitmapSet s.inode_bitmap k false ∧
      t.block_bitmap.bytes_len = s.block_bitmap.bytes_len ∧ t.sb = s.sb ∧
      ∀ b, t.used b ↔ s.used b := by
  obtain ⟨t, hrun, ht, hroot, hinodes⟩ := h.free hp hne rfl hun
  obtain ⟨t', hrun', -, hbm, hlen, hsb, hused, -⟩ := inodeFree_run h.dir.inv hp hne rfl
  rw [hrun] at hrun'
  cases hrun'
  obtain ⟨hframe, -⟩ := RootFrame.inodeFree h hp hne rfl hrun
  refine ⟨t, hrun, ht, hroot, hinodes, hframe.file h ht.dir.inv.table, hbm, hlen, hsb, fun b => ?_⟩
  rw [hused]
  exact ⟨fun hb => hb.1, fun hb => ⟨hb, fun n hn => absurd (newInode_blocks _ n) hn⟩⟩

/-- What is left when the new inode is deleted after nothing was linked. -/
structure Undone (s : FS) (m : Nat) (u v : FS) : Prop where
  rootDir : RootDir v m
  objects : SameObjects s v
  file : ∀ a < 32 * m, v.file 0 a = s.file 0 a
  inode_bitmap : SameBits v.inode_bitmap s.inode_bitmap
  len : v.block_bitmap.bytes_len = u.block_bitmap.bytes_len
  sb : v.sb = u.sb
  used : ∀ b, v.used b ↔ u.used b

theorem RootDir.undo {btmp : Bitmap} (h : RootDir s m)
    (hb : bitmapAllocABit s.inode_bitmap = some (k, btmp)) (hv : Visited (s.createInode k FT_REGULAR) t)
    (hu : RootDir u m) (hsame : SameObjects t u) (hbm : u.inode_bitmap = t.inode_bitmap)
    (hfile : ∀ a < 32 * m, u.file 0 a = t.file 0 a) :
    ∃ v, inodeFree s.next u = .ok ((), v) ∧ Undone s m u v := by
  obtain ⟨hobj, hne, -, hfilet, -, hun⟩ := h.created_object hb hv
  have hfree : s.inodes s.next = none := h.dir.inv.table.next_none
  have hagree : ∀ a < 32 * m, u.file 0 a = s.file 0 a := fun a ha => by rw [hfile a ha, hfilet]
  have hun' : ∀ l < m, entryNo ((u.file 0).from (32 * l)) ≠ k := fun l hl => by
    have hentry : Buf.Agree ((u.file 0).from (32 * l)) ((s.file 0).from (32 * l)) 0 32 :=
      fun a _ ha => hagree _ (by omega)
    rw [entryNo_congr hentry]
    exact hun l hl
  obtain ⟨v, hrun, hv', hroot, hinodes, hfilev, hbmv, hlen, hsb, hused⟩ :=
    hu.free_new ((hsame.inodes _ hne).trans hobj) (hsame.root ▸ hne) hun'
  refine ⟨v, hrun, hv', ⟨hroot.trans (hsame.root.trans hv.root), fun q hq => ?_⟩,
    fun a ha => by rw [hfilev, hagree a ha], ?_, hlen, hsb, hused⟩
  · rw [hinodes]
    by_cases hqn : q = s.next
    · rw [hqn, Function.update_self, hfree]
    · rw [Function.update_of_ne hqn, hsame.inodes q (hv.root.symm ▸ hq), hv.inodes_other hq]
      exact Function.update_of_ne hqn _ _
  · rw [hbmv, hbm, hv.inode_bitmap]
    exact .clear_set (bitmapAllocABit_eq_some hb).2.1

theorem RootDir.create (h : RootDir s m) (path : List Byte) :
    (¬ FitsPath path ∧ createFileOrDirectory 0 path FT_REGULAR s = .error .undefined) ∨
      (∃ t, createFileOrDirectory 0 path FT_REGULAR s = .ok (none, t) ∧ RootDir t m ∧
        SameObjects s t ∧ NoRoom s m path) ∨
      ∃ k t, createFileOrDirectory 0 path FT_REGULAR s = .ok (some s.next, t) ∧
        Created s m path s.next k t := by
  obtain ⟨hbits, hnone⟩ | ⟨k, btmp, hb, ⟨hunfit, hstop⟩ | ⟨t, hv, hlen, ⟨hparent, heq⟩ | ⟨hparent, heq⟩⟩⟩ :=
    h.create_run path
  · exact .inr (.inl ⟨s, hnone, h, ⟨rfl, fun _ _ => rfl⟩, .inl hbits⟩)
  · exact .inl ⟨hunfit, hstop⟩
  · obtain ⟨h1, -⟩ := h.createInode hb
    obtain ⟨u, hrun, hu⟩ := h.undo hb hv (hv.rootDir h1) ⟨rfl, fun _ _ => rfl⟩ rfl fun _ _ => rfl
    refine .inr (.inl ⟨u, ?_, hu.rootDir, hu.objects, .inr (.inl hparent)⟩)
    rw [heq, Prog.bind_of_ok hrun]
    rfl
  · obtain ⟨h1, -⟩ := h.createInode hb
    obtain ⟨hobj, hne, ha, hfile, hnot, hun⟩ := h.created_object hb hv
    have ht := hv.rootDir h1
    have hroot : t.root_dir_inode = s.root_dir_inode := hv.root
    obtain ⟨b, u, hlink, huroot, hbm, hother, hres⟩ := ht.dirLink
      (e := ⟨lastName path, k, FT_REGULAR⟩) hlen rfl ha (by rw [hfile]; exact hun)
    rw [hroot] at hlink
    rw [heq, Prog.bind_of_ok hlink]
    rcases hres with ⟨rfl, hwhy, hu, hfileu⟩ | ⟨rfl, habsent, l, hl, hslot, hu, hfileu⟩
    · obtain ⟨v, hrun, hv'⟩ := h.undo hb hv hu ⟨huroot, hother⟩ hbm hfileu
      rw [h.lookNo_congr ht hfile] at hwhy
      refine .inr (.inl ⟨v, ?_, hv'.rootDir, hv'.objects, .inr (.inr hwhy)⟩)
      rw [if_pos rfl, Prog.bind_of_ok hrun, Prog.bind_of_ok (inodeClose_root hv'.objects.root.symm)]
      rfl
    · have hfree : s.inodes s.next = none := h.dir.inv.table.next_none
      refine .inr (.inr ⟨k, u, rfl, hnot, hfree, huroot.trans hroot, (hother _ hne).trans hobj,
        fun q hq hqr => ?_, hparent, ?_, l, hl, ?_, hu, ?_⟩)
      · rw [hother q (hroot.symm ▸ hqr), hv.inodes_other hqr]
        exact Function.update_of_ne hq _ _
      · rw [← h.lookNo_congr ht hfile]
        exact habsent
      · rwa [hfile] at hslot
      · rwa [hfile] at hfileu

end Create

/-! ## What was created is found -/

section Resolve

variable {s t : FS} {m p k : Nat} {name path : List Byte}

theorem strcmpEq_file {bytes bytes' : Buf} {l : Nat} (hlen : name.length < MAX_FILE_NAME_LEN)
    (h : Buf.Agree (bytes'.from (32 * l)) (bytes.from (32 * l)) 0 32) :
    strcmpEq name (bytes'.from (32 * l)) = strcmpEq name (bytes.from (32 * l)) :=
  strcmpEq_congr fun a h0 ha => h a h0 (by simp only [MAX_FILE_NAME_LEN] at hlen; omega)

/-- The entry that was linked, among the others. -/
theorem Created.entries (h : Created s m path p k t) : ∃ l ≤ m, RootDir t (max m (l + 1)) ∧
    (l < m → entryType ((s.file 0).from (32 * l)) = FT_UNKNOWN) ∧
    Buf.Agree ((t.file 0).from (32 * l)) (⟨lastName path, k, FT_REGULAR⟩ : DirEntry).encode 0 32 ∧
    ∀ n < m, n ≠ l → Buf.Agree ((t.file 0).from (32 * n)) ((s.file 0).from (32 * n)) 0 32 := by
  obtain ⟨l, hl, hslot, ht, hfile⟩ := h.linked
  refine ⟨l, hl, ht, hslot, fun a h1 h2 => ?_, fun n hn hne a h1 h2 => ?_⟩
  · exact (hfile _ (by omega)).trans (agree_patch_self _ a h1 h2)
  · exact (hfile _ (by omega)).trans (agree_patch_other hne a h1 h2)

theorem Created.lookNo_new (h : Created s m path p k t) (hs : RootDir s m)
    (hlen : (lastName path).length < MAX_FILE_NAME_LEN) (hk : k < 2 ^ 64) :
    t.lookNo 0 (lastName path) = some k := by
  obtain ⟨l, hl, ht, -, hself, hother⟩ := h.entries
  have habsent := h.absent
  rw [hs.lookNo_eq, Option.map_eq_none_iff] at habsent
  have hmatch : strcmpEq (lastName path) ((t.file 0).from (32 * l)) = true := by
    rw [strcmpEq_congr fun a h0 ha => hself a h0 (by simp only [MAX_FILE_NAME_LEN] at hlen; omega)]
    exact @DirEntry.strcmpEq_encode ⟨lastName path, k, FT_REGULAR⟩ hlen
  have hfind : findEntry (strcmpEq (lastName path)) (t.file 0) (max m (l + 1)) 0 = some (0 + 32 * l) := by
    refine findEntry_eq_some (by omega) (by rwa [Nat.zero_add]) fun n hn => ?_
    have hnot := findEntry_none habsent (by omega : n < m)
    rw [Nat.zero_add] at hnot ⊢
    exact (strcmpEq_file hlen (hother n (by omega) (by omega))).trans hnot
  rw [ht.lookNo_eq, hfind, Nat.zero_add, Option.map_some, entryNo_congr hself]
  exact congrArg some (DirEntry.entryNo_encode hk)

/-- The names that led to an inode still do. -/
theorem Created.lookNo_old (h : Created s m path p k t) (hs : RootDir s m)
    (hfit : FitsPath path) (hstr : 0 ∉ path) (hname : ValidName name) {no : Nat}
    (hlook : s.lookNo 0 name = some no) : t.lookNo 0 name = some no := by
  obtain ⟨l, hl, ht, hslot, hself, hother⟩ := h.entries
  have hlast : 0 ∉ lastName path := fun h0 => hstr ((lastName_sublist path).subset h0)
  have hlen := hname.length
  have hne : name ≠ lastName path := by
    rintro rfl
    rw [h.absent] at hlook
    cases hlook
  obtain ⟨n, hn, hfind, hno, -⟩ := hs.lookNo_some hlook
  obtain ⟨hmatch, -⟩ := findEntry_some hfind
  -- the slot that was written held no name
  have hnl : n ≠ l := by
    rintro rfl
    rw [strcmpEq_of_nil hname.nonempty hname.string (hs.links.erased n hn (hslot hn))] at hmatch
    cases hmatch
  have hfind' : findEntry (strcmpEq name) (t.file 0) (max m (l + 1)) 0 = some (0 + 32 * n) := by
    refine findEntry_eq_some (by omega) ?_ fun n' hn' => ?_
    · rw [Nat.zero_add, strcmpEq_file hlen (hother n hn hnl)]
      exact hmatch
    · rw [Nat.zero_add]
      by_cases hl' : n' = l
      · rw [hl', strcmpEq_congr fun a h0 ha => hself a h0 (by
          simp only [MAX_FILE_NAME_LEN] at hlen; omega)]
        refine Bool.eq_false_iff.2 fun hm => hne ?_
        exact strcmpEq_inj hname.string hlast hm
          (@DirEntry.strcmpEq_encode ⟨lastName path, k, FT_REGULAR⟩ hfit.lastName)
      · have hfirst := findEntry_first (k := n) (l := n') (by rwa [Nat.zero_add]) hn'
        rw [Nat.zero_add] at hfirst
        exact (strcmpEq_file hlen (hother n' (by omega) hl')).trans hfirst
  rw [ht.lookNo_eq, hfind', Nat.zero_add, Option.map_some, entryNo_congr (hother n hn hnl), hno]

/-- The path leads to the new inode, unless it ends in a slash or is empty: then it leads to the root. -/
theorem Created.resolve (h : Created s m path p k t) (hs : RootDir s m) (hfit : FitsPath path)
    (hstr : 0 ∉ path) : t.resolve 0 path = some (if lastName path = [] then 0 else k) := by
  obtain ⟨l, -, -, ht, -⟩ := h.linked
  have hk := (ht.dir.inv.open_allocated p _ h.object).1
  obtain ⟨⟨d, name⟩, hparent⟩ := Option.ne_none_iff_exists'.1 h.parent
  obtain ⟨rfl, rfl, hlen⟩ := hs.resolveParent_some hparent
  have hparent' : t.resolveParent 0 path = some (0, lastName path) := by
    unfold FS.resolveParent FS.startNo at hparent ⊢
    rw [ite_self] at hparent ⊢
    refine hs.walk_mono ht (fun name hne hin hname hlook => ?_) hparent
    exact h.lookNo_old hs hfit hstr ⟨hne, fun h0 => hstr (hin.subset h0), hname⟩ hlook
  unfold FS.resolve
  rw [hparent']
  dsimp only
  by_cases hne : lastName path = []
  · rw [if_pos hne, if_pos hne]
  · rw [if_neg hne, if_neg hne]
    exact h.lookNo_new hs hlen (Nat.lt_trans hk (by decide))

end Resolve

end RecoverOS
