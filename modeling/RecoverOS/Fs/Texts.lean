import RecoverOS.Fs.Remount
import RecoverOS.Fs.ReadWrite
import RecoverOS.Device.Ioqueue

set_option autoImplicit false

/-! # The text of a file

The bytes of a file as a list, in whatever copy of its inode they are looked up, and what every call of the
layers below does to the texts of all files. -/

namespace RecoverOS

/-- The bytes of a file, from its first to its last. -/
def Inode.text (disk : Buf) (i : Inode) : List Byte := (List.range i.i_size).map (i.byte disk)

/-- File `no` holds `text`, in every copy of its inode. -/
def FS.HasText (s : FS) (no : Nat) (text : List Byte) : Prop :=
  s.allocated no ∧ ∀ i, s.Copy no i → i.text s.disk = text

/-- File `no` stays allocated, and the copies of its inode hold what copies of it held. -/
def KeepsText (s t : FS) (no : Nat) : Prop :=
  s.allocated no → t.allocated no ∧ ∀ j, t.Copy no j → ∃ i, s.Copy no i ∧ j.text t.disk = i.text s.disk

section Text

variable {s t u : FS} {no p q k m : Nat} {i j : Inode} {text : List Byte}

theorem Inode.length_text (disk : Buf) (i : Inode) : (i.text disk).length = i.i_size := by
  unfold Inode.text
  rw [List.length_map, List.length_range]

theorem Inode.getElem?_text (disk : Buf) (i : Inode) (a : Nat) :
    (i.text disk)[a]? = if a < i.i_size then some (i.byte disk a) else none := by
  unfold Inode.text
  rw [List.getElem?_map]
  by_cases ha : a < i.i_size
  · rw [List.getElem?_range ha, if_pos ha]
    rfl
  · rw [List.getElem?_eq_none (by rw [List.length_range]; omega), if_neg ha]
    rfl

/-- Inodes of the same size with the same bytes have the same text. -/
theorem Inode.text_congr {disk disk' : Buf} (hsize : j.i_size = i.i_size)
    (hbyte : ∀ a < i.i_size, j.byte disk' a = i.byte disk a) : j.text disk' = i.text disk := by
  unfold Inode.text
  rw [hsize]
  exact List.map_congr_left fun a ha => hbyte a (List.mem_range.1 ha)

/-- The text depends on the size and the blocks only. -/
theorem Inode.text_sectors {disk : Buf} (hsize : j.i_size = i.i_size) (hsectors : j.i_sectors = i.i_sectors) :
    j.text disk = i.text disk := by
  refine Inode.text_congr hsize fun a _ => ?_
  unfold Inode.byte Inode.blocks
  rw [hsectors]

theorem FS.HasText.keep (h : s.HasText no text) (hk : KeepsText s t no) : t.HasText no text := by
  obtain ⟨ha, hcopies⟩ := hk h.1
  refine ⟨ha, fun j hj => ?_⟩
  obtain ⟨i, hi, heq⟩ := hcopies j hj
  exact heq.trans (h.2 i hi)

namespace KeepsText

theorem refl (s : FS) (no : Nat) : KeepsText s s no := fun ha => ⟨ha, fun j hj => ⟨j, hj, rfl⟩⟩

theorem trans (h : KeepsText s t no) (h' : KeepsText t u no) : KeepsText s u no := by
  intro ha
  obtain ⟨ht, hcopies⟩ := h ha
  obtain ⟨hu, hcopies'⟩ := h' ht
  refine ⟨hu, fun j hj => ?_⟩
  obtain ⟨i', hi', heq'⟩ := hcopies' j hj
  obtain ⟨i, hi, heq⟩ := hcopies i' hi'
  exact ⟨i, hi, heq'.trans heq⟩

/-! ## Objects come and go -/

/-- Nothing but the objects of open inodes changed, and they are copies from before, but for the open count. -/
theorem objects (hsb : t.sb = s.sb) (hdisk : t.disk = s.disk) (hbm : t.inode_bitmap = s.inode_bitmap)
    (hobj : ∀ q j, t.inodes q = some j → ∃ i, s.Copy j.i_no i ∧ j.i_size = i.i_size ∧
      j.i_sectors = i.i_sectors) : KeepsText s t no := by
  intro ha
  refine ⟨(FS.allocated_congr hbm).2 ha, fun j hj => ?_⟩
  obtain ⟨-, ⟨q, hq, rfl⟩ | rfl⟩ := hj
  · obtain ⟨i, hi, hsize, hsectors⟩ := hobj q j hq
    exact ⟨i, hi, by rw [hdisk, Inode.text_sectors hsize hsectors]⟩
  · have hrec : t.record no = s.record no := FS.record_congr hsb fun _ _ _ => by rw [hdisk]
    exact ⟨_, ⟨ha, .inr rfl⟩, by rw [hrec, hdisk]⟩

theorem setCount (hinv : Inv s) (hp : s.inodes p = some i) (n : Nat) :
    KeepsText s (s.setObject p { i with i_open_cnts := n }) no := by
  refine objects rfl rfl rfl fun q j hq => ?_
  have hq' : Function.update s.inodes p (some { i with i_open_cnts := n }) q = some j := hq
  by_cases hqp : q = p
  · rw [hqp, Function.update_self] at hq'
    cases hq'
    exact ⟨i, hinv.copy hp, rfl, rfl⟩
  · rw [Function.update_of_ne hqp] at hq'
    exact ⟨j, hinv.copy hq', rfl, rfl⟩

theorem next (hinv : Inv s) (n : Nat) : KeepsText s { s with next := s.next + n } no :=
  objects rfl rfl rfl fun _ j hq => ⟨j, hinv.copy hq, rfl, rfl⟩

theorem visited (hinv : Inv s) (hv : Visited s t) : KeepsText s t no := by
  obtain ⟨r, a, b, hr, rfl⟩ := hv
  have hset : KeepsText s (s.setObject s.root_dir_inode { r with i_open_cnts := r.i_open_cnts + a }) no :=
    setCount hinv hr (r.i_open_cnts + a)
  exact fun ha => hset ha

theorem load (hinv : Inv s) (ha : s.allocated k) : KeepsText s (s.loadInode k) no := by
  refine objects rfl rfl rfl fun q j hq => ?_
  have hq' : Function.update s.inodes s.next (some (s.opened k)) q = some j := hq
  by_cases hqn : q = s.next
  · rw [hqn, Function.update_self] at hq'
    cases hq'
    have hno : (s.opened k).i_no = k := hinv.recorded k ha
    rw [hno]
    exact ⟨s.record k, ⟨ha, .inr rfl⟩, rfl, rfl⟩
  · rw [Function.update_of_ne hqn] at hq'
    exact ⟨j, hinv.copy hq', rfl, rfl⟩

/-- `inode_open`. -/
theorem opened (hinv : Inv s) (ha : s.allocated k) (hrun : inodeOpen k s = .ok (p, t)) : KeepsText s t no := by
  obtain ⟨q, i, hq, -, hopen⟩ | ⟨-, hopen⟩ := inodeOpen_cases ha
  · rw [hopen] at hrun
    cases hrun
    exact setCount hinv hq _
  · rw [hopen] at hrun
    cases hrun
    exact load hinv ha

theorem found {o r : Option Nat} (hs : RootDir s m) (hf : Found s o r t) : KeepsText s t no := by
  cases hf with
  | none hv => exact visited hs.dir.inv hv
  | root hv => exact visited hs.dir.inv hv
  | file ho =>
      obtain ⟨u, hv, hrun⟩ := ho.run
      have ha := (FS.allocated_congr hv.inode_bitmap).2 ho.allocated
      exact (visited hs.dir.inv hv).trans (opened (hv.rootDir hs).dir.inv ha hrun)

theorem drop (hinv : Inv s) (p : Nat) : KeepsText s (s.dropInode p) no := by
  refine objects rfl rfl rfl fun q j hq => ?_
  have hq' : Function.update s.inodes p none q = some j := hq
  by_cases hqp : q = p
  · rw [hqp, Function.update_self] at hq'
    cases hq'
  · rw [Function.update_of_ne hqp] at hq'
    exact ⟨j, hinv.copy hq', rfl, rfl⟩

/-- `inode_close`. -/
theorem close (hinv : Inv s) (hrun : inodeClose p s = .ok ((), t)) : KeepsText s t no := by
  obtain ⟨-, rfl⟩ | ⟨-, i, hp, ⟨-, rfl⟩ | ⟨-, rfl⟩⟩ := inodeClose_eq hrun
  · exact refl _ no
  · exact drop hinv p
  · exact setCount hinv hp _

/-! ## Other files -/

/-- `inode_write`, whatever it returns, to another file. -/
theorem write {count pos : Nat} {buf : Buf} {r : Int} (hinv : Inv s) (hp : s.inodes p = some i)
    (hne : no ≠ i.i_no) (hrun : inodeWrite p buf count pos s = .ok (r, t)) : KeepsText s t no := by
  obtain ⟨-, i', hframe, -⟩ := inodeWrite_cases hinv hp hrun
  intro ha
  refine ⟨(FS.allocated_congr hframe.changes.inode_bitmap).2 ha, fun j hj => ?_⟩
  have hc := (hframe.changes.copy_other hne).1 hj
  refine ⟨j, hc, Inode.text_congr rfl fun a _ => ?_⟩
  exact Inode.byte_congr (congrFun (hframe.blocks_eq hc hne) _) fun hk =>
    hframe.other_block hinv hc hne hk _ (by omega) (by omega)

/-- A new inode. -/
theorem createInode {btmp : Bitmap} (hinv : Inv s) (h : bitmapAllocABit s.inode_bitmap = some (k, btmp))
    (hne : no ≠ k) : KeepsText s (s.createInode k FT_REGULAR) no := by
  obtain ⟨hk, -⟩ := bitmapAllocABit_eq_some h
  intro ha
  refine ⟨(allocated_createInode hinv.geometry hk).2 (.inl ha), fun j hj => ?_⟩
  obtain ⟨hc, -⟩ := copy_createInode hinv h hne hj
  exact ⟨j, hc, Inode.text_congr rfl fun a _ => copy_byte (fun n hn =>
    createInode_block hinv.geometry hk (hinv.used_slot hc hn)) a⟩

/-- `inode_free` of another file. -/
theorem free (hinv : Inv s) (hp : s.inodes p = some i) (hroot : p ≠ s.root_dir_inode)
    (hcnt : i.i_open_cnts = 1) (hne : no ≠ i.i_no) (hrun : inodeFree p s = .ok ((), t)) : KeepsText s t no := by
  obtain ⟨s2, hfreed, hrun2⟩ := inodeFree_freed hinv hp hroot hcnt
  rw [hrun] at hrun2
  cases hrun2
  obtain ⟨t', hrun', -, hbm, -, -, -, hcopies⟩ := inodeFree_run hinv hp hroot hcnt
  rw [hrun] at hrun'
  cases hrun'
  intro ha
  refine ⟨⟨ha.1, ?_⟩, fun j hj => ?_⟩
  · rw [hbm, bitmapRead_bitmapSet, if_neg hne]
    exact ha.2
  obtain ⟨hc, -⟩ := hcopies no j hj
  refine ⟨j, hc, Inode.text_congr rfl fun a _ => copy_byte (t := s2.dropInode p) (fun n hn b h1 h2 => ?_) a⟩
  have hused := hinv.used_slot hc hn
  have hge := hinv.geometry.data_lba
  have hge' := hinv.geometry.table_lba
  have hdata := hused.1
  refine hfreed.disk b (Nat.le_trans ?_ h1) fun n' _ hn' h0 => ?_
  · show 512 * s.sb.inode_bitmap_lba ≤ _
    omega
  · refine sector_apart (fun heq => ?_) h1 h2
    rw [← Inode.slot_block hn'] at heq
    exact hne (hinv.slot_inj hc (hinv.copy hp) hn heq).1

/-- The new inode of `create_file_or_directory` is empty, and the other files are as they were. -/
theorem createFile {path : List Byte} (hs : RootDir s m)
    (hrun : createFileOrDirectory 0 path FT_REGULAR s = .ok (some p, t)) :
    ∃ k, k ≠ 0 ∧ ¬ s.allocated k ∧ t.inodes p = some (newInode k FT_REGULAR) ∧
      (∀ no, t.allocated no ↔ s.allocated no ∨ no = k) ∧ ∀ no, no ≠ 0 → KeepsText s t no := by
  obtain ⟨-, hnone⟩ | ⟨k, btmp, hb, ⟨-, hstop⟩ | ⟨u, hv, hlen, ⟨-, heq⟩ | ⟨-, heq⟩⟩⟩ := hs.create_run path
  · rw [hnone] at hrun
    cases hrun
  · rw [hstop] at hrun
    cases hrun
  · rw [heq] at hrun
    obtain ⟨⟨⟩, v, -, hnone⟩ := Prog.bind_eq_ok.1 hrun
    cases hnone
  have hc := hs.createInode hb
  have hu := hv.rootDir hc.1
  have hroot : u.root_dir_inode = s.root_dir_inode := hv.root
  obtain ⟨hobj, hne, -, -, hfresh, -⟩ := hs.created_object hb hv
  rw [heq] at hrun
  obtain ⟨linked, v, hlink, hrest⟩ := Prog.bind_eq_ok.1 hrun
  have htrue : linked = true ∧ p = s.next ∧ t = v := by
    cases linked with
    | false =>
        obtain ⟨⟨⟩, v1, -, hclose⟩ := Prog.bind_eq_ok.1 hrest
        obtain ⟨⟨⟩, v2, -, hnone⟩ := Prog.bind_eq_ok.1 hclose
        cases hnone
    | true =>
        cases hrest
        exact ⟨rfl, rfl, rfl⟩
  obtain ⟨rfl, rfl, rfl⟩ := htrue
  have hzero : k ≠ 0 := by
    rintro rfl
    exact hfresh hs.allocated_zero
  by_cases hlook : u.lookNo 0 (lastName path) = none
  · obtain ⟨l, -, hslot, -⟩ := exists_linkSlot u m
    rw [← hroot, hu.dirLink_absent (e := ⟨lastName path, k, FT_REGULAR⟩) hlen hlook hslot] at hlink
    obtain ⟨r, w, hwrite, hres⟩ := Prog.bind_eq_ok.1 hlink
    obtain ⟨-, rfl⟩ := Prog.pure_eq_ok.1 hres
    obtain ⟨i, hp, hno, -⟩ := hu.object
    obtain ⟨-, i', hframe, -⟩ := inodeWrite_cases hu.dir.inv hp hwrite
    refine ⟨k, hzero, hfresh, (hframe.changes.inodes_other hne).trans hobj, fun no => ?_, fun no hn0 ha => ?_⟩
    · rw [FS.allocated_congr hframe.changes.inode_bitmap, FS.allocated_congr hv.inode_bitmap]
      exact allocated_createInode hs.dir.inv.geometry (bitmapAllocABit_eq_some hb).1
    · have hnk : no ≠ k := by
        rintro rfl
        exact hfresh ha
      exact ((createInode hs.dir.inv hb hnk).trans ((visited hc.1.dir.inv hv).trans
        (write hu.dir.inv hp (hno ▸ hn0) hwrite))) ha
  · obtain ⟨w, hfalse, -⟩ := hu.dirLink_taken (e := ⟨lastName path, k, FT_REGULAR⟩) hlen hlook
    rw [← hroot, hfalse] at hlink
    cases hlink

/-- `delete_file_or_directory` from its `inode_free` on. -/
theorem deleteFound {path : List Byte} {mapped : Bool} (hs : RootDir s m)
    (hp : s.inodes p = some i) (hne : p ≠ s.root_dir_inode) (hcnt : i.i_open_cnts = 1)
    (hlen : (lastName path).length < MAX_FILE_NAME_LEN) (hlook : s.lookNo 0 (lastName path) = some i.i_no)
    (hrun : RecoverOS.deleteFound mapped path s.root_dir_inode p s = .ok ((), t)) (hn0 : no ≠ 0)
    (hni : no ≠ i.i_no) : KeepsText s t no := by
  unfold RecoverOS.deleteFound at hrun
  obtain ⟨⟨⟩, u, hfree, h1⟩ := Prog.bind_eq_ok.1 hrun
  obtain ⟨⟨⟩, u', hclosed, h2⟩ := Prog.bind_eq_ok.1 h1
  obtain ⟨-, rfl⟩ := Prog.require_eq_ok.1 hclosed
  obtain ⟨b, v, hunlink, h3⟩ := Prog.bind_eq_ok.1 h2
  obtain ⟨-, rfl⟩ := Prog.assert_eq_ok.1 h3
  obtain ⟨k, hdang, hfind⟩ := hs.dangling hp hne hcnt hlook hfree
  obtain ⟨hframe, -⟩ := RootFrame.inodeFree hs hp hne hcnt hfree
  rw [← hframe.root, hdang.dirUnlink_eq hlen hfind] at hunlink
  obtain ⟨r, w, hwrite, hres⟩ := Prog.bind_eq_ok.1 hunlink
  obtain ⟨-, rfl⟩ := Prog.pure_eq_ok.1 hres
  have hroot := hdang.isDir
  obtain ⟨j, hj, -⟩ := hroot.object
  obtain ⟨j', hj', hno⟩ := hroot.inv.table.root
  have hj0 : j.i_no = 0 := by
    have heq : some j = some j' := hj.symm.trans hj'
    cases heq
    exact hno
  have hlast : KeepsText _ w no := write hroot.inv hj (hj0 ▸ hn0) hwrite
  exact (free hs.dir.inv hp hne hcnt hni hfree).trans fun ha => hlast ha

end KeepsText

/-! ## One file -/

/-- With the indirect blocks on the disk, the record of an inode is as good as its object. -/
theorem text_record (hinv : Inv s) (hind : IndirectStored s) (hp : s.inodes p = some i) :
    (s.record i.i_no).text s.disk = i.text s.disk := by
  have hsync := hinv.synced p i hp
  have h12 := hind p i hp
  refine Inode.text_congr hsync.size fun a _ => ?_
  have hblocks : (s.record i.i_no).blocks s.disk (a / 512) = i.blocks s.disk (a / 512) := by
    unfold Inode.blocks
    by_cases hk : a / 512 < 12
    · rw [if_pos hk, if_pos hk, hsync.direct _ hk]
    · rw [if_neg hk, if_neg hk, h12]
  unfold Inode.byte
  rw [hblocks]

/-- So one copy tells the text. -/
theorem hasText_object (hinv : Inv s) (hind : IndirectStored s) (hp : s.inodes p = some i) :
    s.HasText i.i_no (i.text s.disk) := by
  refine ⟨hinv.open_allocated p i hp, fun j hj => ?_⟩
  obtain ⟨-, ⟨q, hq, hno⟩ | rfl⟩ := hj
  · have hqp : q = p := hinv.table.one_object _ _ _ _ hq hp hno
    rw [hqp, hp] at hq
    cases hq
    rfl
  · exact text_record hinv hind hp

/-- Bytes put over a text from `pos` on, and behind its end. -/
def overwrite (text : List Byte) (pos : Nat) (bytes : List Byte) : List Byte :=
  text.take pos ++ bytes ++ text.drop (pos + bytes.length)

theorem getElem?_overwrite {bytes : List Byte} {pos : Nat} (hpos : pos ≤ text.length) (a : Nat) :
    (overwrite text pos bytes)[a]? =
      if a < pos then text[a]? else if a < pos + bytes.length then bytes[a - pos]? else text[a]? := by
  have htake : (text.take pos).length = pos := by rw [List.length_take]; omega
  unfold overwrite
  by_cases h1 : a < pos
  · rw [if_pos h1, List.append_assoc, List.getElem?_append_left (by omega), List.getElem?_take_of_lt h1]
  · rw [if_neg h1, List.append_assoc, List.getElem?_append_right (by omega), htake]
    by_cases h2 : a < pos + bytes.length
    · rw [if_pos h2, List.getElem?_append_left (by omega)]
    · rw [if_neg h2, List.getElem?_append_right (by omega), List.getElem?_drop]
      congr 1
      omega

/-- An `inode_write` that returns the count, and does not end on a block boundary behind its first block. -/
theorem text_inodeWrite {count pos : Nat} {buf : Buf} (hinv : Inv s) (hcov : Covered s)
    (hp : s.inodes p = some i) (hpos : pos ≤ i.i_size) (hfit : pos + count ≤ 71680)
    (hb : ¬ EndsOnBoundary pos count) (hrun : inodeWrite p buf count pos s = .ok ((count : Int), t)) :
    ∃ j, t.inodes p = some j ∧ j.i_no = i.i_no ∧
      j.text t.disk = overwrite (i.text s.disk) pos (Ioqueue.firstBytes buf count) := by
  have hu : u64 (pos + count) = pos + count := u64_of_lt (by omega)
  have hlen : (Ioqueue.firstBytes buf count).length = count := by
    unfold Ioqueue.firstBytes
    rw [List.length_map, List.length_range]
  obtain ⟨-, t', i', hrun', hobj, hfilled, hst⟩ | ⟨-, t', stop, hrun', -⟩ := inodeWrite_run buf hinv hp hfit
  · rw [hrun] at hrun'
    cases hrun'
    obtain ⟨-, j, hframe, ⟨hneg, -⟩ | ⟨-, -, hdone⟩⟩ := inodeWrite_cases hinv hp hrun
    · omega
    have hj := hframe.changes.object'
    rw [hobj] at hj
    cases hj
    have hsize := hdone.size
    rw [hu] at hsize
    refine ⟨i', hobj, hframe.changes.no, List.ext_getElem? fun a => ?_⟩
    rw [getElem?_overwrite (by rw [Inode.length_text]; exact hpos), hlen, Inode.getElem?_text,
      Inode.getElem?_text]
    have hout : ∀ a, (a < pos ∨ pos + count ≤ a) →
        (if a < i'.i_size then some (i'.byte t.disk a) else none) =
          if a < i.i_size then some (i.byte s.disk a) else none := by
      intro a ha
      by_cases hlt : a < i.i_size
      · rw [if_pos hlt, if_pos (by omega), byte_kept hinv hcov hp hfit hrun hobj hlt ha]
      · rw [if_neg hlt, if_neg (by omega)]
    by_cases h1 : a < pos
    · rw [if_pos h1]
      exact hout a (.inl h1)
    · rw [if_neg h1]
      by_cases h2 : a < pos + count
      · have hbyte := byte_written (fun k h1 h2 => (hfilled k h1 h2).1) hst (k := a - pos) (by omega)
        have hstored : storedEnd pos count = pos + count := if_neg hb
        rw [hstored, show pos + (a - pos) = a by omega, if_pos h2] at hbyte
        rw [if_pos h2, if_pos (by omega), hbyte]
        unfold Ioqueue.firstBytes
        rw [List.getElem?_map, List.getElem?_range (by omega)]
        rfl
      · rw [if_neg h2]
        exact hout a (.inr (by omega))
  · rw [hrun] at hrun'
    cases hrun'

end Text

end RecoverOS
