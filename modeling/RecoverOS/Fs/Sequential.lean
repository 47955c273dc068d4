import RecoverOS.Fs.Reach

set_option autoImplicit false

/-! # The inode layer, one call after the other

The properties of `fs/inode.c` over all sequences of calls: who owns a block, what a write changes, what
a read returns after a write, and what deleting a file gives back. -/

namespace RecoverOS

/-! ## Ownership of blocks -/

/-- Every block that an allocated inode names, directly, as its indirect block (place 140) or in the
    indirect block, is marked used; and no block is named twice. -/
theorem blocks_owned {s : FS} (h : Reachable s) :
    (∀ no i k, s.Copy no i → i.slot s.disk k ≠ 0 → s.used (i.slot s.disk k)) ∧
    ∀ no i k no' i' k', s.Copy no i → s.Copy no' i' → i.slot s.disk k ≠ 0 →
      i.slot s.disk k = i'.slot s.disk k' → no = no' ∧ k = k' :=
  ⟨fun _ _ _ hc hk => h.inv.used_slot hc hk, fun _ _ _ _ _ _ hc hc' hk heq =>
    h.inv.slot_inj hc hc' hk heq⟩

/-! ## A file that was just created -/

/-- `s` is a state in which the file at `p` was just created on a partition just formatted, on a drive
    that held `disk`. -/
structure FreshFile (disk : Buf) (s : FS) (p k : Nat) : Prop where
  reachable : ReachableWithin s
  object : s.inodes p = some (newInode k FT_REGULAR)
  not_root : p ≠ s.root_dir_inode
  first : bitmapRead s.block_bitmap 0 = true
  free : 4095 ≤ s.freeBlocks
  data : ∀ a, 512 * (s.sb.data_start_lba + 1) ≤ a → s.disk a = disk a

/-- The partition of the runs below: two sectors of block bitmap. -/
def smallPartition : Partition := ⟨0, 8192, by decide⟩

theorem missing_zero {all : Nat → Nat} (h : ∀ k, all k = 0) (lo hi : Nat) :
    missing all lo hi = hi - lo := by
  unfold missing
  rw [Finset.filter_true_of_mem fun k _ => h k, Nat.card_Ico]

theorem newInode_blocks {no file_type : Nat} (disk : Buf) (k : Nat) :
    (newInode no file_type).blocks disk k = 0 := by
  by_cases hk : k < 140
  · rw [← Inode.slot_block hk, newInode_slot]
  · exact Inode.blocks_beyond (by omega)

theorem exists_inodeAlloc (disk : Buf) : ∃ s s1 p k, Reachable s ∧
    inodeAlloc FT_REGULAR s = .ok (some p, s1) ∧ FreshFile disk s1 p k := by
  obtain ⟨s0, hs0⟩ := @filesysInit_run smallPartition (by decide) (by decide) disk
  obtain ⟨t, hm, -, -, hdisk, heq⟩ := filesysInit_eq hs0
  have hinv := (inv_filesysInit hs0).1
  have hsb : s0.sb = t.sb := by rw [heq]; rfl
  have hbm : s0.block_bitmap = t.block_bitmap := by rw [heq]; rfl
  have hibm : s0.inode_bitmap = t.inode_bitmap := by rw [heq]; rfl
  have hdisk0 : s0.disk = t.disk := by rw [heq]; rfl
  have hnext : s0.next = t.next + 1 := by rw [heq]; rfl
  have hroot : s0.root_dir_inode = t.next := by rw [heq]
  have hbits := hm.block_bits
  have hsects := hm.formatted.sects
  cases halloc : bitmapAllocABit s0.inode_bitmap with
  | none =>
      exfalso
      have hall := bitmapAllocABit_eq_none.1 halloc 1 (by
        rw [inode_bitmap_size hinv.geometry]
        decide)
      rw [hibm, hm.inode_bits 1 (by decide)] at hall
      cases hall
  | some res =>
      obtain ⟨k, btmp⟩ := res
      have hk := (bitmapAllocABit_eq_some halloc).1
      have hrun : inodeAlloc FT_REGULAR s0 = .ok (some s0.next, s0.createInode k FT_REGULAR) :=
        inodeAlloc_some hinv.geometry halloc
      have h0 : ReachableWithin s0 := ⟨_, disk, s0, [], hs0, .nil⟩
      refine ⟨s0, s0.createInode k FT_REGULAR, s0.next, k, h0.reachable, hrun, ?_⟩
      constructor
      case reachable =>
        refine h0.step (c := .alloc FT_REGULAR) ⟨trivial, ?_, ?_⟩
        · show FT_REGULAR < 2 ^ 32
          decide
        · exact (Prog.bind_of_ok hrun _).trans rfl
      case object =>
        show Function.update s0.inodes s0.next (some (newInode k FT_REGULAR)) s0.next = _
        exact Function.update_self _ _ _
      case not_root =>
        show s0.next ≠ s0.root_dir_inode
        rw [hnext, hroot]
        exact Nat.succ_ne_self _
      case first =>
        show bitmapRead s0.block_bitmap 0 = true
        rw [hbm, hbits 0 (by omega)]
        rfl
      case free =>
        show 4095 ≤ ((Finset.range s0.block_bitmap.size).filter fun i =>
          bitmapRead s0.block_bitmap i = false).card
        have hsub : Finset.Ico 1 4096 ⊆ (Finset.range s0.block_bitmap.size).filter fun i =>
            bitmapRead s0.block_bitmap i = false := by
          intro i hi
          rw [Finset.mem_Ico] at hi
          rw [Finset.mem_filter, Finset.mem_range, Bitmap.size, hbm, hm.block_len,
            hbits i (by omega), decide_eq_false_iff_not]
          omega
        have hle := Finset.card_le_card hsub
        rwa [Nat.card_Ico] at hle
      case data =>
        intro a ha
        have ha' : 512 * (s0.sb.data_start_lba + 1) ≤ a := ha
        have hk' : k < 4096 := by rwa [inode_bitmap_size hinv.geometry] at hk
        have hlt := FS.recordAddr_lt hinv.geometry hk'
        have hge := hinv.geometry.data_lba
        rw [createInode_disk hinv.geometry hk (by omega) (by omega), hdisk0]
        exact hdisk a (by rwa [← hsb])

theorem exists_freshFile (disk : Buf) : ∃ s p k, FreshFile disk s p k := by
  obtain ⟨-, s, p, k, -, -, h⟩ := exists_inodeAlloc disk
  exact ⟨s, p, k, h⟩

/-- There is room for a file of any size. -/
theorem FreshFile.write {disk : Buf} {s : FS} {p k : Nat} (h : FreshFile disk s p k) (buf : Buf)
    {count : Nat} (hfit : 0 + count ≤ 71680) :
    ∃ s', inodeWrite p buf count 0 s = .ok (count, s') := by
  have hzero := @newInode_blocks k FT_REGULAR s.disk
  have hfree := h.free
  rcases inodeWrite_run buf h.reachable.reachable.inv h.object hfit with
    ⟨-, s', i', hrun, -⟩ | ⟨hfull, -⟩
  · exact ⟨s', hrun⟩
  · unfold blocksNeeded at hfull
    rw [missing_zero hzero] at hfull
    have hneed : needIndirect (newInode k FT_REGULAR) (0 + count) ≤ 1 := by
      unfold needIndirect
      split <;> omega
    omega

/-- The root directory and a file that was just created name the first data block only. -/
theorem blocks_owned_fresh : ∃ s p k, FreshFile Buf.zero s p k ∧
    ∀ no i k, s.Copy no i → i.slot s.disk k ≠ 0 → s.used (i.slot s.disk k) := by
  obtain ⟨s, p, k, h⟩ := exists_freshFile Buf.zero
  exact ⟨s, p, k, h, (blocks_owned h.reachable.reachable).1⟩

/-! ## What a write changes -/

/-- The bytes a read returns, and the value. -/
def readResult (mallocOk : Nat → Bool) (inode : Nat) (buf : Buf) (count pos : Nat) (s : FS) :
    Except Fault (Int × Buf) :=
  (inodeRead mallocOk inode buf count pos s).map Prod.fst

/-- The same for an inode that is opened first. -/
def openReadResult (mallocOk : Nat → Bool) (inode_no : Nat) (buf : Buf) (count pos : Nat) (s : FS) :
    Except Fault (Int × Buf) :=
  ((do let inode ← inodeOpen inode_no; inodeRead mallocOk inode buf count pos : Prog FS (Int × Buf))
    s).map Prod.fst

section Frame

variable {s s' : FS} {p : Nat} {i i' : Inode}

theorem WriteFrame.blocks_eq (h : WriteFrame s s' p i i') {no : Nat} {j : Inode} (hc : s.Copy no j)
    (hne : no ≠ i.i_no) : j.blocks s'.disk = j.blocks s.disk :=
  funext (h.changes.blocks_other hc hne)

/-- An open inode other than the one written reads as before. -/
theorem WriteFrame.readResult_eq (h : WriteFrame s s' p i i') (hinv : Inv s) {q : Nat} {j : Inode}
    (hq : s.inodes q = some j) (hne : j.i_no ≠ i.i_no) (mallocOk : Nat → Bool) (out : Buf)
    (count pos : Nat) : readResult mallocOk q out count pos s' = readResult mallocOk q out count pos s := by
  have hqp : q ≠ p := by
    rintro rfl
    rw [h.changes.object] at hq
    exact hne (congrArg Inode.i_no (Option.some.inj hq)).symm
  exact inodeRead_congr hq (by rwa [h.changes.inodes_other hqp]) rfl
    (h.blocks_eq (hinv.copy hq) hne) fun k hk => h.other_block hinv (hinv.copy hq) hne hk

/-- So does an inode that is opened for the purpose. -/
theorem WriteFrame.openReadResult_eq (h : WriteFrame s s' p i i') (hinv : Inv s) (hinv' : Inv s')
    {no : Nat} (ha : s.allocated no) (hne : no ≠ i.i_no) (mallocOk : Nat → Bool) (out : Buf)
    (count pos : Nat) :
    openReadResult mallocOk no out count pos s' = openReadResult mallocOk no out count pos s := by
  have ha' : s'.allocated no := (FS.allocated_congr h.changes.inode_bitmap).2 ha
  unfold openReadResult
  cases hfind : s.findInode no with
  | some q =>
      obtain ⟨-, j, hq, hno⟩ := FS.findInode_some hfind
      have hne' : j.i_no ≠ i.i_no := by rwa [hno]
      have hqp : q ≠ p := by
        rintro rfl
        rw [h.changes.object] at hq
        exact hne' (congrArg Inode.i_no (Option.some.inj hq)).symm
      have hq' : s'.inodes q = some j := by rwa [h.changes.inodes_other hqp]
      have hfind' : s'.findInode no = some q := by
        rw [← hno]
        exact FS.findInode_of_object hinv'.table hq'
      rw [Prog.bind_of_ok (inodeOpen_found hfind hq), Prog.bind_of_ok (inodeOpen_found hfind' hq')]
      have hc := hinv.copy hq
      have hblocks : ∀ disk n, ({ j with i_open_cnts := n } : Inode).blocks disk = j.blocks disk :=
        fun _ _ => rfl
      refine inodeRead_congr (changesInode_openCount hq _).object'
        (changesInode_openCount hq' _).object' rfl ?_ fun k hk => ?_
      · rw [hblocks, hblocks]
        exact h.blocks_eq hc hne'
      · rw [hblocks] at hk ⊢
        exact h.other_block hinv hc hne' hk
  | none =>
      have hfind' : s'.findInode no = none := by
        cases hf : s'.findInode no with
        | none => rfl
        | some q =>
            obtain ⟨-, j, hq, hno⟩ := FS.findInode_some hf
            rcases h.changes.inodes_cases hq with ⟨-, rfl⟩ | ⟨-, hq⟩
            · exact absurd (hno.symm.trans h.changes.no) hne
            · exact absurd hno (FS.findInode_none hinv.table hfind hq)
      have hc : s.Copy no (s.record no) := ⟨ha, Or.inr rfl⟩
      have hrec : s'.record no = s.record no := h.changes.record_other ha.1 hne
      have hopened : s'.opened no = s.opened no := by
        unfold FS.opened
        rw [hrec]
      have hobj : ∀ t : FS, (t.loadInode no).inodes t.next = some (t.opened no) := fun t => by
        show Function.update t.inodes t.next (some (t.opened no)) t.next = _
        exact Function.update_self _ _ _
      have hobj' := hobj s'
      rw [h.changes.next] at hobj'
      rw [Prog.bind_of_ok (inodeOpen_new hfind ha.1), Prog.bind_of_ok (inodeOpen_new hfind' ha'.1),
        h.changes.next]
      have hsame : ∀ disk, (s.opened no).blocks disk = (s.record no).blocks disk := fun disk =>
        funext (Inode.blocks_congr (fun _ _ => rfl) fun _ _ _ _ => rfl)
      have hd : (s.loadInode no).disk = s.disk := rfl
      have hd' : (s'.loadInode no).disk = s'.disk := rfl
      rw [hopened] at hobj'
      refine inodeRead_congr (hobj s) hobj' rfl ?_ fun k hk => ?_
      · rw [hd, hd', hsame, hsame]
        exact h.blocks_eq hc hne
      · rw [hd, hsame] at hk ⊢
        rw [hd']
        exact h.other_block hinv hc hne hk

/-- A byte that is in a block before and after, at an offset the write does not name. -/
theorem byte_outside {count pos stop a : Nat} {buf : Buf} {blocks : Nat → Nat}
    (hblocks : i'.blocks s'.disk (a / 512) = blocks (a / 512)) (h0 : blocks (a / 512) ≠ 0)
    (hold : i.blocks s.disk (a / 512) = blocks (a / 512))
    (hst : Stamped pos count buf (pos / 512) stop blocks s s') (ha : a < pos ∨ pos + count ≤ a) :
    i'.byte s'.disk a = i.byte s.disk a := by
  have hstamp := hst (a / 512) (a % 512) (Nat.mod_lt _ (by decide)) h0
  have hend : storedEnd pos count ≤ pos + count := by
    unfold storedEnd
    split <;> omega
  have hdiv : 512 * (a / 512) + a % 512 = a := Nat.div_add_mod a 512
  rw [if_neg (by omega)] at hstamp
  unfold Inode.byte
  rw [hblocks, hold, if_neg h0, if_neg h0]
  exact hstamp

/-- One byte inside the file. -/
theorem readResult_one (hp : s.inodes p = some i) (hsize : i.i_size ≤ 71680) {a : Nat}
    (ha : a < i.i_size) {mallocOk : Nat → Bool} (hm : mallocOk 512 = true) (out : Buf) :
    readResult mallocOk p out 1 a s = .ok (1, fun k => if k = 0 then i.byte s.disk a else out k) := by
  have hmin : min 1 (i.i_size - a) = 1 := by omega
  have hbuf : readBufSize a (min 1 (i.i_size - a)) = 512 := by
    rw [hmin]
    unfold readBufSize
    omega
  obtain ⟨r, hrun, hin, hout⟩ := inodeRead_run _ out hp hsize (Nat.le_of_lt ha) (.inr ha)
    (by omega)
    (hbuf ▸ hm)
  rw [hmin] at hrun hin hout
  have hr : r = fun k => if k = 0 then i.byte s.disk a else out k := by
    funext k
    by_cases hk : k = 0
    · rw [if_pos hk, hk]
      exact hin 0 Nat.one_pos
    · rw [if_neg hk]
      exact hout k (by omega)
  unfold readResult
  rw [hrun, ← hr]
  rfl

/-- Bytes of the written inode below the old size and outside the range written stay. -/
theorem byte_kept {count pos : Nat} {buf : Buf} {r : Int} (hinv : Inv s) (hcov : Covered s)
    (hp : s.inodes p = some i) (hfit : pos + count ≤ 71680)
    (h : inodeWrite p buf count pos s = .ok (r, s')) (hp' : s'.inodes p = some i') {a : Nat}
    (ha : a < i.i_size) (hout : a < pos ∨ pos + count ≤ a) : i'.byte s'.disk a = i.byte s.disk a := by
  have hblock : i.blocks s.disk (a / 512) ≠ 0 := hcov _ i (hinv.copy hp) _ (by omega)
  obtain ⟨-, j, hframe, -⟩ := inodeWrite_cases hinv hp h
  rw [hframe.changes.object'] at hp'
  cases hp'
  have hkept := hframe.kept_block hblock
  rcases inodeWrite_run buf hinv hp hfit with
    ⟨-, t, i'', hrun, hobj, -, hst⟩ | ⟨-, t, stop, hrun, -, hst⟩
  · rw [hrun] at h
    cases h
    rw [hframe.changes.object'] at hobj
    cases hobj
    exact byte_outside rfl (by rwa [hkept]) hkept.symm hst hout
  · rw [hrun] at h
    cases h
    exact byte_outside hkept hblock rfl hst hout

end Frame

/-- A write that ends within the largest file leaves the other inodes alone, in the inode table and in what is read from
    them, and of its own inode every byte below the old size that it does not name. -/
theorem write_changes_only {s : FS} {p count pos : Nat} {i : Inode} {buf : Buf}
    (h : ReachableWithin s) (hp : s.inodes p = some i) (hfit : pos + count ≤ MAX_FILE_SIZE) :
    ∃ r s' i', inodeWrite p buf count pos s = .ok (r, s') ∧ (r = count ∨ r = -1) ∧
      s'.inodes p = some i' ∧
      (∀ no < MAX_FILES_PER_PART, no ≠ i.i_no → Buf.Agree s'.disk s.disk (s.recordAddr no) 160) ∧
      (∀ q j, s.inodes q = some j → q ≠ p → s'.inodes q = some j ∧ ∀ mallocOk out n a,
        readResult mallocOk q out n a s' = readResult mallocOk q out n a s) ∧
      (∀ no, s.allocated no → no ≠ i.i_no → ∀ mallocOk out n a,
        openReadResult mallocOk no out n a s' = openReadResult mallocOk no out n a s) ∧
      (∀ a < i.i_size, a < pos ∨ pos + count ≤ a → ∀ mallocOk out, mallocOk 512 = true →
        ∃ out', readResult mallocOk p out 1 a s = .ok (1, out') ∧
          readResult mallocOk p out 1 a s' = .ok (1, out')) ∧
      (r = count → i'.i_size = max i.i_size (pos + count)) := by
  have hinv := h.reachable.inv
  have hcov := h.covered
  have hfit' : pos + count ≤ 71680 := hfit
  obtain ⟨r, s', hrun, hr⟩ : ∃ r s', inodeWrite p buf count pos s = .ok (r, s') ∧
      (r = (count : Int) ∨ r = -1) := by
    rcases inodeWrite_run buf hinv hp hfit' with
      ⟨-, t, i', hrun, -⟩ | ⟨-, t, stop, hrun, -⟩
    · exact ⟨_, t, hrun, Or.inl rfl⟩
    · exact ⟨_, t, hrun, Or.inr rfl⟩
  obtain ⟨hinv', i', hframe, hres⟩ := inodeWrite_cases hinv hp hrun
  have hobj := hframe.changes.object'
  refine ⟨r, s', i', hrun, hr, hobj, hframe.changes.records, fun q j hq hqp => ?_,
    fun no ha hne mallocOk out n a => hframe.openReadResult_eq hinv hinv' ha hne mallocOk out n a,
    fun a ha hout mallocOk out hm => ?_, fun hcount => ?_⟩
  · have hne : j.i_no ≠ i.i_no := fun heq => hqp (hinv.table.one_object _ _ _ _ hq hp heq)
    exact ⟨by rwa [hframe.changes.inodes_other hqp], hframe.readResult_eq hinv hq hne⟩
  · have hle := hframe.size_le
    refine ⟨_, readResult_one hp (hinv.size_le hp) ha hm out, ?_⟩
    rw [readResult_one hobj (hinv'.size_le hobj) (by omega) hm out,
      byte_kept hinv hcov hp hfit' hrun hobj ha hout]
  · rcases hres with ⟨hr1, -, -⟩ | ⟨-, -, hdone⟩
    · omega
    · have hu : u64 (pos + count) = pos + count := u64_of_lt (by omega)
      rw [hdone.size, hu]

/-- One byte written to a file that was just created. -/
theorem write_changes_only_fresh : ∃ s p i, ReachableWithin s ∧ s.inodes p = some i ∧
    ∃ r s' i', inodeWrite p Buf.zero 1 0 s = .ok (r, s') ∧ s'.inodes p = some i' ∧
      (r = (1 : Nat) → i'.i_size = max i.i_size (0 + 1)) := by
  obtain ⟨s, p, k, h⟩ := exists_freshFile Buf.zero
  obtain ⟨r, s', i', hrun, -, hobj, -, -, -, -, hsize⟩ :=
    write_changes_only h.reachable h.object (by decide : 0 + 1 ≤ MAX_FILE_SIZE)
  exact ⟨s, p, _, h.reachable, h.object, r, s', i', hrun, hobj, hsize⟩

/-! ## Reading back what was written -/

/-- If the write returns `count`, reading the same range returns `count` and the bytes written. -/
def ReadsBack (s : FS) (p : Nat) (buf : Buf) (count pos : Nat) : Prop :=
  ∀ s', inodeWrite p buf count pos s = .ok (count, s') → ∀ out, ∃ out',
    inodeRead (fun _ => true) p out count pos s' = .ok ((count, out'), s') ∧
      ∀ k < count, out' k = buf k

/-- The write goes over a block boundary and ends on one. -/
def EndsOnBoundary (pos count : Nat) : Prop :=
  (pos + count) % 512 = 0 ∧ pos / 512 + 1 < (pos + count + 511) / 512

instance (pos count : Nat) : Decidable (EndsOnBoundary pos count) := by
  unfold EndsOnBoundary
  infer_instance

/-- The block behind the last file block of a write: the one it has, or else the one the allocator
    hands out after those for the indirect block and for the file blocks before it. -/
def lastBlock (s : FS) (i : Inode) (pos count : Nat) : Option Nat :=
  let k := (pos + count) / 512 - 1
  if i.blocks s.disk k ≠ 0 then some (i.blocks s.disk k)
  else (nthFree s.block_bitmap
    (needIndirect i (pos + count) + missing (i.blocks s.disk) (pos / 512) k)).map
      (s.sb.data_start_lba + ·)

/-- What the allocator hands out was free before. -/
theorem nthFree_clear {b : Bitmap} {m n : Nat} (h : nthFree b m = some n) : bitmapRead b n = false := by
  induction m generalizing b with
  | zero =>
      obtain ⟨⟨k, btmp⟩, halloc, rfl⟩ := Option.map_eq_some_iff.1 h
      exact (bitmapAllocABit_eq_some halloc).2.1
  | succ m ih =>
      obtain ⟨⟨k, btmp⟩, halloc, hrest⟩ := Option.bind_eq_some_iff.1 h
      have hread := ih hrest
      obtain ⟨-, -, rfl, -⟩ := bitmapAllocABit_eq_some halloc
      by_cases hnk : n = k
      · rw [hnk, bitmapRead_bitmapSet_self] at hread
        cases hread
      · rwa [bitmapRead_bitmapSet_of_ne _ _ hnk] at hread

section ReadBack

variable {s s' : FS} {p count pos : Nat} {buf : Buf} {i i' : Inode}

/-- What a file holds after a write that returned `count`, inside the range written. -/
theorem byte_written (hblock : ∀ k, pos / 512 ≤ k → k < (pos + count + 511) / 512 →
      i'.blocks s'.disk k ≠ 0)
    (hst : Stamped pos count buf (pos / 512) ((pos + count + 511) / 512) (i'.blocks s'.disk) s s')
    {k : Nat} (hk : k < count) :
    i'.byte s'.disk (pos + k) = if pos + k < storedEnd pos count then buf k
      else s.disk (512 * i'.blocks s'.disk ((pos + k) / 512) + (pos + k) % 512) := by
  have h0 := hblock ((pos + k) / 512) (by omega) (by omega)
  have hdiv : 512 * ((pos + k) / 512) + (pos + k) % 512 = pos + k := Nat.div_add_mod _ _
  have hstamp := hst ((pos + k) / 512) ((pos + k) % 512) (Nat.mod_lt _ (by decide)) h0
  rw [hdiv, Nat.add_sub_cancel_left] at hstamp
  unfold Inode.byte
  rw [if_neg h0, hstamp]
  by_cases hend : pos + k < storedEnd pos count
  · rw [if_pos hend, if_pos ⟨by omega, by omega, by omega, hend⟩]
  · rw [if_neg hend, if_neg (fun h => hend h.2.2.2)]

/-- After a write that returned `count`, the range reads back if and only if the file holds it. -/
theorem readsBack_iff_byte (hinv' : Inv s') (hrun : inodeWrite p buf count pos s = .ok (count, s'))
    (hobj : s'.inodes p = some i') (hcount : 1 ≤ count) (hsize : pos + count ≤ i'.i_size) :
    ReadsBack s p buf count pos ↔ ∀ k < count, i'.byte s'.disk (pos + k) = buf k := by
  have hle := hinv'.size_le hobj
  have hmin : min count (i'.i_size - pos) = count := by omega
  have hread : ∀ out, ∃ out', inodeRead (fun _ => true) p out count pos s' = .ok ((count, out'), s') ∧
      ∀ k < count, out' k = i'.byte s'.disk (pos + k) := by
    intro out
    obtain ⟨r, hr, hin, -⟩ := inodeRead_run (fun _ => true) out hobj hle
      (by omega : pos ≤ i'.i_size) (.inr (by omega)) (by omega : pos + count < 2 ^ 64) rfl
    rw [hmin] at hr hin
    exact ⟨r, hr, hin⟩
  constructor
  · intro h k hk
    obtain ⟨out', hr, hbuf⟩ := h s' hrun Buf.zero
    obtain ⟨r, hr', hbyte⟩ := hread Buf.zero
    rw [hr'] at hr
    cases hr
    rw [← hbyte k hk, hbuf k hk]
  · intro h t ht out
    rw [hrun] at ht
    cases ht
    obtain ⟨r, hr, hbyte⟩ := hread out
    exact ⟨r, hr, fun k hk => (hbyte k hk).trans (h k hk)⟩

/-- The last block of a write that returned `count`. -/
theorem lastBlock_eq (hframe : WriteFrame s s' p i i') (hinv' : Inv s')
    (hb : EndsOnBoundary pos count)
    (hfilled : ∀ k, pos / 512 ≤ k → k < (pos + count + 511) / 512 → i'.blocks s'.disk k ≠ 0 ∧
        (i.blocks s.disk k = 0 → nthFree s.block_bitmap
          (needIndirect i (pos + count) + missing (i.blocks s.disk) (pos / 512) k)
            = some (i'.blocks s'.disk k - s.sb.data_start_lba))) :
    lastBlock s i pos count = some (i'.blocks s'.disk ((pos + count) / 512 - 1)) := by
  obtain ⟨hmod, hmulti⟩ := hb
  obtain ⟨hne, hnth⟩ := hfilled ((pos + count) / 512 - 1) (by omega) (by omega)
  unfold lastBlock
  by_cases h0 : i.blocks s.disk ((pos + count) / 512 - 1) ≠ 0
  · rw [if_pos h0, hframe.kept_block h0]
  · rw [if_neg h0, hnth (not_not.1 h0)]
    have hc := hinv'.copy hframe.changes.object'
    have hge := (hinv'.used_blocks hc hne).1
    rw [hframe.changes.sb] at hge
    refine congrArg some ?_
    show s.sb.data_start_lba + (_ - s.sb.data_start_lba) = _
    omega

/-- When the bytes written are read back. -/
theorem readsBack_iff (hinv : Inv s) (hp : s.inodes p = some i) (hcount : 1 ≤ count)
    (hfit : pos + count ≤ 71680) :
    ReadsBack s p buf count pos ↔
      s.freeBlocks < blocksNeeded s i pos count ∨ ¬ EndsOnBoundary pos count ∨
        ∃ b, lastBlock s i pos count = some b ∧
          ∀ j < 512, buf (count - 512 + j) = s.disk (512 * b + j) := by
  rcases inodeWrite_run buf hinv hp hfit with
    ⟨hroom, s', i', hrun, hobj, hfilled, hst⟩ | ⟨hfull, s', stop, hrun, -⟩
  · obtain ⟨hinv', i'', hframe, hres⟩ := inodeWrite_cases hinv hp hrun
    rw [hframe.changes.object'] at hobj
    cases hobj
    have hu : u64 (pos + count) = pos + count := u64_of_lt (by omega)
    have hsize : pos + count ≤ i'.i_size := by
      rcases hres with ⟨hr, -, -⟩ | ⟨-, -, hdone⟩
      · omega
      · rw [hdone.size, hu]
        exact le_max_right _ _
    rw [readsBack_iff_byte hinv' hrun hframe.changes.object' hcount hsize]
    have hbyte := fun k hk => @byte_written s s' count pos buf i'
      (fun k h1 h2 => (hfilled k h1 h2).1) hst k hk
    by_cases hb : EndsOnBoundary pos count
    · have hlast := lastBlock_eq hframe hinv' hb hfilled
      have hend : storedEnd pos count = pos + count - 512 := if_pos hb
      obtain ⟨hmod, hmulti⟩ := hb
      constructor
      · intro h
        refine Or.inr (Or.inr ⟨_, hlast, fun j hj => ?_⟩)
        have hk := h (count - 512 + j) (by omega)
        rw [hbyte _ (by omega), hend, if_neg (by omega)] at hk
        rw [← hk, show (pos + (count - 512 + j)) / 512 = (pos + count) / 512 - 1 by omega,
          show (pos + (count - 512 + j)) % 512 = j by omega]
      · rintro (h | h | ⟨b, hb', h⟩) k hk
        · omega
        · exact absurd ⟨hmod, hmulti⟩ h
        · rw [hlast] at hb'
          cases hb'
          rw [hbyte k hk, hend]
          by_cases hin : pos + k < pos + count - 512
          · rw [if_pos hin]
          · rw [if_neg hin]
            have hj := h (k - (count - 512)) (by omega)
            rw [show count - 512 + (k - (count - 512)) = k by omega] at hj
            rw [hj, show (pos + k) / 512 = (pos + count) / 512 - 1 by omega,
              show (pos + k) % 512 = k - (count - 512) by omega]
    · have hend : storedEnd pos count = pos + count := if_neg hb
      refine iff_of_true (fun k hk => ?_) (Or.inr (Or.inl hb))
      rw [hbyte k hk, hend, if_pos (by omega)]
  · refine iff_of_true (fun t ht => ?_) (Or.inl hfull)
    rw [hrun] at ht
    have h := congrArg Prod.fst (Except.ok.inj ht)
    have h' : (-1 : Int) = count := h
    omega

end ReadBack

/-- Reading back what was written works unless the write goes over a block boundary, ends on one, and
    its last 512 bytes are not what its last block holds already. -/
theorem read_back_iff {s : FS} {p count pos : Nat} {buf : Buf} {i : Inode} (h : Reachable s)
    (hp : s.inodes p = some i) (hcount : 1 ≤ count) (hfit : pos + count ≤ MAX_FILE_SIZE) :
    ReadsBack s p buf count pos ↔
      s.freeBlocks < blocksNeeded s i pos count ∨ ¬ EndsOnBoundary pos count ∨
        ∃ b, lastBlock s i pos count = some b ∧
          ∀ j < 512, buf (count - 512 + j) = s.disk (512 * b + j) :=
  readsBack_iff h.inv hp hcount hfit

/-- A write of 1000 bytes to a new file is read back. -/
theorem read_back_fresh : ∃ s p k, FreshFile Buf.zero s p k ∧
    ReadsBack s p (fun _ => 1) 1000 0 := by
  obtain ⟨s, p, k, h⟩ := exists_freshFile Buf.zero
  refine ⟨s, p, k, h, ?_⟩
  refine (read_back_iff h.reachable.reachable h.object (by decide) (by decide)).2 (Or.inr (Or.inl ?_))
  decide

/-- A write of 1024 ones to a new file is not read back: its second block is not stored. -/
theorem not_read_back_1024 : ∃ s s' p k, FreshFile Buf.zero s p k ∧
    inodeWrite p (fun _ => 1) 1024 0 s = .ok (1024, s') ∧ ¬ ReadsBack s p (fun _ => 1) 1024 0 := by
  obtain ⟨s, p, k, h⟩ := exists_freshFile Buf.zero
  obtain ⟨s', hrun⟩ := h.write (fun _ => 1) (by decide : 0 + 1024 ≤ 71680)
  refine ⟨s, s', p, k, h, hrun, ?_⟩
  have hinv := h.reachable.reachable.inv
  rw [readsBack_iff hinv h.object (by decide) (by decide)]
  have hzero := @newInode_blocks k FT_REGULAR s.disk
  rintro (hfull | hb | ⟨b, hlast, hbytes⟩)
  · have hneed : needIndirect (newInode k FT_REGULAR) (0 + 1024) = 0 := by
      unfold needIndirect
      exact if_neg (by omega)
    unfold blocksNeeded at hfull
    rw [hneed, missing_zero hzero] at hfull
    have hfree := h.free
    omega
  · exact hb (by decide)
  · have hk : (newInode k FT_REGULAR).blocks s.disk ((0 + 1024) / 512 - 1) = 0 := hzero _
    unfold lastBlock at hlast
    dsimp only at hlast
    rw [if_neg (by rw [hk]; simp)] at hlast
    obtain ⟨n, hn, rfl⟩ := Option.map_eq_some_iff.1 hlast
    have hn0 : n ≠ 0 := by
      rintro rfl
      have hclear := nthFree_clear hn
      rw [h.first] at hclear
      cases hclear
    have h0 := hbytes 0 (by decide)
    rw [h.data _ (by omega)] at h0
    exact absurd h0 (by rw [Buf.zero_apply]; decide)

/-! ## What deleting a file gives back -/

/-- The arguments of a call of `inode_write`. -/
structure WriteCall where
  buf : Buf
  count : Nat
  pos : Nat

/-- A call of `inode_write` on the inode at `p` that does not fail. -/
def Wrote (p : Nat) (s : FS) (w : WriteCall) (s' : FS) : Prop :=
  ∃ r, r ≠ -1 ∧ inodeWrite p w.buf w.count w.pos s = .ok (r, s')

/-- Two bitmaps of the same length with the same bits. -/
def SameBits (b c : Bitmap) : Prop :=
  b.bytes_len = c.bytes_len ∧ ∀ idx < c.size, bitmapRead b idx = bitmapRead c idx

/-- Bits and blocks. -/
theorem bit_iff_used {s : FS} {idx : Nat} (hidx : idx < s.block_bitmap.size) :
    bitmapRead s.block_bitmap idx = true ↔ s.used (s.sb.data_start_lba + idx) := by
  unfold FS.used
  rw [Nat.add_sub_cancel_left]
  exact ⟨fun h => ⟨Nat.le_add_right _ _, by omega, h⟩, fun h => h.2.2⟩

theorem SameBits.refl (b : Bitmap) : SameBits b b := ⟨rfl, fun _ _ => rfl⟩

/-- A bit that was clear is set and cleared again. -/
theorem SameBits.clear_set {b : Bitmap} {k : Nat} (hclear : bitmapRead b k = false) :
    SameBits (bitmapSet (bitmapSet b k true) k false) b := by
  refine ⟨rfl, fun idx _ => ?_⟩
  rw [bitmapRead_bitmapSet, bitmapRead_bitmapSet]
  by_cases hk : idx = k
  · rw [if_pos hk, hk, hclear]
  · rw [if_neg hk, if_neg hk]

/-- The blocks in use say what the bits of the block bitmap are. -/
theorem SameBits.of_used {s t : FS} (hsb : t.sb = s.sb)
    (hlen : t.block_bitmap.bytes_len = s.block_bitmap.bytes_len) (hused : ∀ b, t.used b ↔ s.used b) :
    SameBits t.block_bitmap s.block_bitmap := by
  have hsize : t.block_bitmap.size = s.block_bitmap.size := by
    rw [Bitmap.size, Bitmap.size, hlen]
  refine ⟨hlen, fun idx hidx => ?_⟩
  rw [Bool.eq_iff_iff, bit_iff_used hidx, bit_iff_used (by rwa [hsize]), hsb, hused]

section Delete

variable {s s1 s2 : FS} {p k file_type : Nat} {ws : List WriteCall}

/-- What successful writes did to a file that was empty in `s`: it names what is used now and was not
    then, and has an indirect block once a write went past the direct blocks. -/
structure Grew (p : Nat) (s : FS) (ws : List WriteCall) (s' : FS) (i' : Inode) : Prop where
  inv : Inv s'
  object : s'.inodes p = some i'
  no : i'.i_no = k
  open_cnts : i'.i_open_cnts = 1
  root : s'.root_dir_inode = s.root_dir_inode
  sb : s'.sb = s.sb
  inode_bitmap : s'.inode_bitmap = s.inode_bitmap
  len : s'.block_bitmap.bytes_len = s.block_bitmap.bytes_len
  fresh : ∀ m, i'.slot s'.disk m ≠ 0 → ¬ s.used (i'.slot s'.disk m)
  used : ∀ b, s'.used b ↔ s.used b ∨ ∃ m, i'.slot s'.disk m = b ∧ b ≠ 0
  indirect : i'.i_sectors 12 = 0 ↔ ∀ w ∈ ws, u64 (w.pos + w.count) ≤ 6144

theorem Grew.nil (hinv : Inv s) (hp : s.inodes p = some (newInode k file_type)) :
    Grew (k := k) p s [] s (newInode k file_type) where
  inv := hinv
  object := hp
  no := rfl
  open_cnts := rfl
  root := rfl
  sb := rfl
  inode_bitmap := rfl
  len := rfl
  fresh m hm := absurd (newInode_slot _ _) hm
  used b := by
    refine ⟨Or.inl, ?_⟩
    rintro (hb | ⟨m, hm, hb⟩)
    · exact hb
    · rw [newInode_slot] at hm
      exact absurd hm.symm hb
  indirect := ⟨fun _ w hw => absurd hw List.not_mem_nil, fun _ => rfl⟩

theorem Grew.step {i1 : Inode} {w : WriteCall} (h : Grew (k := k) p s ws s1 i1)
    (hw : Wrote p s1 w s2) : ∃ i2, Grew (k := k) p s (ws ++ [w]) s2 i2 := by
  obtain ⟨r, hr, hrun⟩ := hw
  obtain ⟨hinv2, i2, hframe, hres⟩ := inodeWrite_cases h.inv h.object hrun
  obtain ⟨-, -, hdone⟩ := hres.resolve_left fun hfail => hr hfail.1
  have hch := hframe.changes
  refine ⟨i2, ?_⟩
  constructor
  case inv => exact hinv2
  case object => exact hch.object'
  case no => exact hch.no.trans h.no
  case open_cnts => exact hframe.open_cnts.trans h.open_cnts
  case root => exact hch.root.trans h.root
  case sb => exact hch.sb.trans h.sb
  case inode_bitmap => exact hch.inode_bitmap.trans h.inode_bitmap
  case len => exact hframe.len.trans h.len
  case fresh =>
    intro m hm
    by_cases h0 : i1.slot s1.disk m = 0
    · exact fun hu => hframe.fresh m h0 hm ((h.used _).2 (Or.inl hu))
    · rw [hframe.kept m h0]
      exact h.fresh m h0
  case used =>
    intro b
    rw [hdone.used, h.used]
    constructor
    · rintro ((hb | ⟨m, hm, hb⟩) | ⟨m, -, hm, hb⟩)
      · exact Or.inl hb
      · exact Or.inr ⟨m, by rw [hframe.kept m (by rwa [hm]), hm], hb⟩
      · exact Or.inr ⟨m, hm, hb⟩
    · rintro (hb | ⟨m, hm, hb⟩)
      · exact Or.inl (Or.inl hb)
      · by_cases h0 : i1.slot s1.disk m = 0
        · exact Or.inr ⟨m, h0, hm, hb⟩
        · rw [hframe.kept m h0] at hm
          exact Or.inl (Or.inr ⟨m, hm, hb⟩)
  case indirect =>
    rw [hdone.indirect, h.indirect]
    constructor
    · rintro ⟨hall, hlast⟩ v hv
      rcases List.mem_append.1 hv with hv | hv
      · exact hall v hv
      · rw [List.mem_singleton.1 hv]
        exact hlast
    · intro hall
      exact ⟨fun v hv => hall v (List.mem_append_left _ hv),
        hall w (List.mem_append_right _ (List.mem_singleton.2 rfl))⟩

theorem Grew.of_run (hinv : Inv s) (hp : s.inodes p = some (newInode k file_type))
    (hrun : Run (Wrote p) s ws s2) : ∃ i2, Grew (k := k) p s ws s2 i2 := by
  induction hrun with
  | nil => exact ⟨_, Grew.nil hinv hp⟩
  | snoc _ hlast ih =>
      obtain ⟨i1, h1⟩ := ih
      exact h1.step hlast

/-- Deleting the file gives back the file blocks and keeps the indirect block. -/
theorem Grew.free {i2 : Inode} (h : Grew (k := k) p s ws s2 i2) (hroot : p ≠ s.root_dir_inode) :
    ∃ s3, inodeFree p s2 = .ok ((), s3) ∧ s3.sb = s.sb ∧
      s3.inode_bitmap = bitmapSet s.inode_bitmap k false ∧
      s3.block_bitmap.bytes_len = s.block_bitmap.bytes_len ∧
      ∀ b, s3.used b ↔ s.used b ∨ (b = i2.i_sectors 12 ∧ b ≠ 0) := by
  obtain ⟨s3, hrun, -, hibm, hlen, hsb, hused, -⟩ :=
    inodeFree_run h.inv h.object (by rwa [h.root]) h.open_cnts
  refine ⟨s3, hrun, hsb.trans h.sb, by rw [hibm, h.inode_bitmap, h.no], hlen.trans h.len, fun b => ?_⟩
  have hc := h.inv.copy h.object
  rw [hused, h.used]
  constructor
  · rintro ⟨hb | ⟨m, hm, hb⟩, hne⟩
    · exact Or.inl hb
    · by_cases hlt : m < 140
      · rw [Inode.slot_block hlt] at hm
        exact absurd hm.symm (hne m (by rwa [hm]))
      · by_cases h140 : m = 140
        · rw [h140, Inode.slot_indirect] at hm
          exact Or.inr ⟨hm.symm, hb⟩
        · rw [Inode.slot_beyond (by omega)] at hm
          exact absurd hm.symm hb
  · rintro (hb | ⟨rfl, hb⟩)
    · refine ⟨Or.inl hb, fun m hm heq => ?_⟩
      have hlt : m < 140 := by
        by_contra hge
        exact hm (Inode.blocks_beyond (by omega))
      have hf := h.fresh m
      rw [Inode.slot_block hlt] at hf
      exact hf hm (heq ▸ hb)
    · refine ⟨Or.inr ⟨140, Inode.slot_indirect, hb⟩, fun m hm heq => ?_⟩
      have hlt : m < 140 := by
        by_contra hge
        exact hm (Inode.blocks_beyond (by omega))
      have hsame : i2.slot s2.disk 140 = i2.slot s2.disk m := by
        rw [Inode.slot_indirect, Inode.slot_block hlt, heq]
      have hplace := h.inv.slot_inj hc hc (by rwa [Inode.slot_indirect]) hsame
      omega

/-- Creating a file, writing to it and deleting it. -/
theorem delete_restores (hinv : Inv s) (hft : file_type < 2 ^ 32)
    (halloc : inodeAlloc file_type s = .ok (some p, s1)) (hws : Run (Wrote p) s1 ws s2) :
    ∃ s3, inodeFree p s2 = .ok ((), s3) ∧
      ((SameBits s3.block_bitmap s.block_bitmap ∧ SameBits s3.inode_bitmap s.inode_bitmap) ↔
        ∀ w ∈ ws, u64 (w.pos + w.count) ≤ 6144) := by
  cases hb : bitmapAllocABit s.inode_bitmap with
  | none =>
      rw [inodeAlloc_none hb] at halloc
      cases halloc
  | some res =>
      obtain ⟨k, btmp⟩ := res
      rw [inodeAlloc_some hinv.geometry hb] at halloc
      cases halloc
      have hclear := (bitmapAllocABit_eq_some hb).2.1
      have hroot : s.next ≠ s.root_dir_inode := by
        obtain ⟨r, hr, -⟩ := hinv.table.root
        have hlt := hinv.table.fresh _ _ hr
        omega
      have hinv1 := inv_createInode hinv hb hft
      have hobj : (s.createInode k file_type).inodes s.next = some (newInode k file_type) := by
        show Function.update s.inodes s.next (some (newInode k file_type)) s.next = _
        exact Function.update_self _ _ _
      have hbm1 : (s.createInode k file_type).block_bitmap = s.block_bitmap := rfl
      have hsb1 : (s.createInode k file_type).sb = s.sb := rfl
      have hibm1 : (s.createInode k file_type).inode_bitmap = bitmapSet s.inode_bitmap k true := rfl
      obtain ⟨i2, hg⟩ := Grew.of_run hinv1 hobj hws
      obtain ⟨s3, hrun, hsb, hibm, hlen, hused⟩ := hg.free hroot
      rw [hbm1] at hlen
      rw [hsb1] at hsb
      refine ⟨s3, hrun, ?_⟩
      rw [← hg.indirect]
      have hused' : ∀ b, s3.used b ↔ s.used b ∨ (b = i2.i_sectors 12 ∧ b ≠ 0) := fun b =>
        (hused b).trans (or_congr_left (FS.used_congr hsb1 hbm1 b))
      have hsize : s3.block_bitmap.size = s.block_bitmap.size := by
        rw [Bitmap.size, Bitmap.size, hlen]
      constructor
      · rintro ⟨⟨-, hbits⟩, -⟩
        by_contra h12
        -- the bit of the indirect block is set, and was not
        have hc := hg.inv.copy hg.object
        have hfresh := hg.fresh 140
        rw [Inode.slot_indirect] at hfresh
        have hnot := hfresh h12
        rw [FS.used_congr hsb1 hbm1] at hnot
        obtain ⟨hge, hlt, -⟩ := hg.inv.used_indirect hc h12
        rw [hg.sb, hsb1] at hge hlt
        rw [Bitmap.size, hg.len, hbm1] at hlt
        have hidx : i2.i_sectors 12 - s.sb.data_start_lba < s.block_bitmap.size := by
          rw [Bitmap.size]
          omega
        have hset : bitmapRead s3.block_bitmap (i2.i_sectors 12 - s.sb.data_start_lba) = true := by
          rw [bit_iff_used (by rwa [hsize]), hsb, Nat.add_sub_cancel' hge]
          exact (hused' _).2 (Or.inr ⟨rfl, h12⟩)
        rw [hbits _ hidx, bit_iff_used hidx, Nat.add_sub_cancel' hge] at hset
        exact hnot hset
      · intro h12
        refine ⟨.of_used hsb hlen fun b => ?_, ?_⟩
        · rw [hused']
          constructor
          · rintro (h | ⟨h, hne⟩)
            · exact h
            · exact absurd (h.trans h12) hne
          · exact Or.inl
        · rw [hibm, hibm1]
          exact .clear_set hclear

end Delete

/-- Creating a file, writing to it and deleting it leaves both bitmaps as they were if and only if no
    write went past the direct blocks: the indirect block is never given back. -/
theorem delete_restores_iff {s s1 s2 : FS} {p file_type : Nat} {ws : List WriteCall}
    (h : Reachable s) (hft : file_type < 2 ^ 32)
    (halloc : inodeAlloc file_type s = .ok (some p, s1)) (hws : Run (Wrote p) s1 ws s2) :
    ∃ s3, inodeFree p s2 = .ok ((), s3) ∧
      ((SameBits s3.block_bitmap s.block_bitmap ∧ SameBits s3.inode_bitmap s.inode_bitmap) ↔
        ∀ w ∈ ws, u64 (w.pos + w.count) ≤ 6144) :=
  delete_restores h.inv hft halloc hws

/-- A file that fills its direct blocks is deleted without a trace. -/
theorem delete_restores_6144 : ∃ s s1 s2 s3 p, Reachable s ∧
    inodeAlloc FT_REGULAR s = .ok (some p, s1) ∧ inodeWrite p Buf.zero 6144 0 s1 = .ok (6144, s2) ∧
    inodeFree p s2 = .ok ((), s3) ∧ SameBits s3.block_bitmap s.block_bitmap ∧
    SameBits s3.inode_bitmap s.inode_bitmap := by
  obtain ⟨s, s1, p, k, h, halloc, hfresh⟩ := exists_inodeAlloc Buf.zero
  obtain ⟨s2, hwrite⟩ := hfresh.write Buf.zero (by decide : 0 + 6144 ≤ 71680)
  have hw : Wrote p s1 ⟨Buf.zero, 6144, 0⟩ s2 := ⟨_, by decide, hwrite⟩
  obtain ⟨s3, hrun, hiff⟩ := delete_restores_iff h (by decide) halloc (Run.single hw)
  have hsame := hiff.2 fun w hmem => by
    obtain rfl := List.mem_singleton.1 hmem
    exact Nat.le_of_eq (u64_of_lt (by decide))
  exact ⟨s, s1, s2, s3, p, h, halloc, hwrite, hrun, hsame⟩

/-- A file of 6145 bytes leaves its indirect block behind. -/
theorem not_delete_restores_6145 : ∃ s s1 s2 s3 p, Reachable s ∧
    inodeAlloc FT_REGULAR s = .ok (some p, s1) ∧ inodeWrite p Buf.zero 6145 0 s1 = .ok (6145, s2) ∧
    inodeFree p s2 = .ok ((), s3) ∧
    ¬ (SameBits s3.block_bitmap s.block_bitmap ∧ SameBits s3.inode_bitmap s.inode_bitmap) := by
  obtain ⟨s, s1, p, k, h, halloc, hfresh⟩ := exists_inodeAlloc Buf.zero
  obtain ⟨s2, hwrite⟩ := hfresh.write Buf.zero (by decide : 0 + 6145 ≤ 71680)
  have hw : Wrote p s1 ⟨Buf.zero, 6145, 0⟩ s2 := ⟨_, by decide, hwrite⟩
  obtain ⟨s3, hrun, hiff⟩ := delete_restores h.inv (by decide) halloc (Run.single hw)
  refine ⟨s, s1, s2, s3, p, h, halloc, hwrite, hrun, fun hsame => ?_⟩
  have hle := hiff.1 hsame _ (List.mem_singleton.2 rfl)
  have hu : u64 (0 + 6145) = 6145 := u64_of_lt (by decide)
  rw [hu] at hle
  omega

end RecoverOS
