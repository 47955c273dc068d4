import RecoverOS.Base.Ownership
import RecoverOS.Fs.Content
import RecoverOS.Fs.Proofs.Alloc

set_option autoImplicit false

/-! # The invariant of the inode layer

An allocated inode number has a record in the inode table, and at most one `struct inode` in memory.
The two may differ: after a write that failed for want of blocks the object in memory can name an
indirect block its record does not know. Both count as *copies* of the inode, and the places an inode
holds blocks at are the places of any of its copies. -/

namespace RecoverOS

namespace Inode

/-- The blocks an inode names, by place: file blocks 0 to 139, and the indirect block at place 140. -/
def slot (disk : Buf) (i : Inode) (k : Nat) : Nat :=
  if k = MAX_FILE_BLOCKS_CNT then i.i_sectors NDIRECT else i.blocks disk k

/-- An object in memory against its record: nothing differs but the open count, and an indirect block
    the record does not know yet. -/
structure Synced (i r : Inode) : Prop where
  no : r.i_no = i.i_no
  size : r.i_size = i.i_size
  type : r.f_type = i.f_type
  direct : ∀ k < 12, r.i_sectors k = i.i_sectors k
  indirect : r.i_sectors 12 = i.i_sectors 12 ∨ r.i_sectors 12 = 0

variable {disk disk' : Buf} {i j : Inode}

@[simp] theorem slot_indirect : i.slot disk 140 = i.i_sectors 12 := if_pos rfl

theorem slot_block {k : Nat} (hk : k < 140) : i.slot disk k = i.blocks disk k := by
  unfold slot
  exact if_neg (Nat.ne_of_lt hk)

theorem slot_beyond {k : Nat} (hk : 140 < k) : i.slot disk k = 0 := by
  unfold slot
  exact (if_neg (Nat.ne_of_gt hk)).trans (blocks_beyond (by omega))

theorem slot_congr (hsec : ∀ k ≤ 12, j.i_sectors k = i.i_sectors k)
    (hind : i.i_sectors 12 ≠ 0 → Buf.Agree disk' disk (512 * i.i_sectors 12) 512) (k : Nat) :
    j.slot disk' k = i.slot disk k := by
  unfold slot
  rw [blocks_congr hsec hind, hsec NDIRECT (Nat.le_refl _)]

/-- The open count is no part of what an inode holds. -/
theorem slot_openCnts (n k : Nat) :
    ({ i with i_open_cnts := n } : Inode).slot disk k = i.slot disk k := rfl

theorem Synced.refl (i : Inode) : Synced i i := ⟨rfl, rfl, rfl, fun _ _ => rfl, Or.inl rfl⟩

/-- What a record names, the object in memory names at the same place. -/
theorem Synced.slot_eq {r : Inode} (h : Synced i r) {k : Nat} (hk : r.slot disk k ≠ 0) :
    i.slot disk k = r.slot disk k := by
  rcases h.indirect with h12 | h12
  · refine slot_congr (fun k hk => ?_) (fun _ _ _ _ => rfl) k
    by_cases hk12 : k = 12
    · rw [hk12, h12]
    · exact (h.direct k (by omega)).symm
  · by_cases hk12 : k < 12
    · rw [slot_block (by omega), slot_block (by omega), blocks_direct hk12, blocks_direct hk12,
        h.direct k hk12]
    · exfalso
      apply hk
      by_cases hk' : k < 140
      · rw [slot_block hk', blocks_no_indirect h12 (by omega)]
      · by_cases h140 : k = 140
        · rw [h140, slot_indirect, h12]
        · exact slot_beyond (by omega)

end Inode

namespace FS

/-- The address of the record of inode `no` on the disk. -/
def recordAddr (s : FS) (no : Nat) : Nat := 512 * s.sb.inode_table_lba + 160 * no

/-- The record of inode `no` in the inode table. -/
def record (s : FS) (no : Nat) : Inode := Inode.decode (s.disk.from (s.recordAddr no))

/-- Inode number `no` is allocated. -/
def allocated (s : FS) (no : Nat) : Prop :=
  no < MAX_FILES_PER_PART ∧ bitmapRead s.inode_bitmap no = true

/-- `i` is what memory or the inode table holds for the allocated inode `no`. -/
def Copy (s : FS) (no : Nat) (i : Inode) : Prop :=
  s.allocated no ∧ ((∃ p, s.inodes p = some i ∧ i.i_no = no) ∨ i = s.record no)

/-- A copy of inode `a.1` names block `b` at place `a.2`. -/
def holds (s : FS) (a : Nat × Nat) (b : Nat) : Prop :=
  b ≠ 0 ∧ ∃ i, s.Copy a.1 i ∧ i.slot s.disk a.2 = b

/-- The `struct inode` objects and the list that leads to them. -/
structure OpenTable (s : FS) : Prop where
  nodup : s.open_inodes.Nodup
  mem_iff : ∀ p, p ∈ s.open_inodes ↔ ∃ i, s.inodes p = some i
  fresh : ∀ p i, s.inodes p = some i → p < s.next
  one_object : ∀ p q i j, s.inodes p = some i → s.inodes q = some j → i.i_no = j.i_no → p = q
  counted : ∀ p i, s.inodes p = some i → 0 < i.i_open_cnts
  root : ∃ i, s.inodes s.root_dir_inode = some i ∧ i.i_no = 0

/-- The next address holds no object yet. -/
theorem OpenTable.next_none {s : FS} (h : s.OpenTable) : s.inodes s.next = none := by
  cases hn : s.inodes s.next with
  | none => rfl
  | some i => exact absurd (h.fresh _ _ hn) (Nat.lt_irrefl _)

end FS

/-- The invariant of the inode layer. -/
structure Inv (s : FS) : Prop where
  geometry : Geometry s
  table : s.OpenTable
  open_allocated : ∀ p i, s.inodes p = some i → s.allocated i.i_no
  fits : ∀ p i, s.inodes p = some i → i.Fits
  synced : ∀ p i, s.inodes p = some i → i.Synced (s.record i.i_no)
  recorded : ∀ no, s.allocated no → (s.record no).i_no = no
  sized : ∀ no i, s.Copy no i → i.i_size ≤ MAX_FILE_SIZE
  exclusive : Exclusive s.holds s.used

/-- Every file block below the size of a copy has a disk block. -/
def Covered (s : FS) : Prop :=
  ∀ no i, s.Copy no i → ∀ k, 512 * k < i.i_size → i.blocks s.disk k ≠ 0

/-! ## Reading the invariant -/

namespace Inv

variable {s : FS} {p : Nat} {i : Inode}

theorem copy (h : Inv s) (hp : s.inodes p = some i) : s.Copy i.i_no i :=
  ⟨h.open_allocated p i hp, Or.inl ⟨p, hp, rfl⟩⟩

theorem size_le (h : Inv s) (hp : s.inodes p = some i) : i.i_size ≤ 71680 :=
  h.sized _ _ (h.copy hp)

theorem no_lt (h : Inv s) (hp : s.inodes p = some i) : i.i_no < 4096 :=
  (h.open_allocated p i hp).1

/-- Every block a copy names is in use. -/
theorem used_slot (h : Inv s) {no k : Nat} (hc : s.Copy no i) (hk : i.slot s.disk k ≠ 0) :
    s.used (i.slot s.disk k) := by
  have hh : s.holds (no, k) (i.slot s.disk k) := ⟨hk, i, hc, rfl⟩
  exact h.exclusive.used_of_holds hh

/-- A block is named at one place only. -/
theorem slot_inj (h : Inv s) {no no' k k' : Nat} {j : Inode} (hc : s.Copy no i) (hc' : s.Copy no' j)
    (hk : i.slot s.disk k ≠ 0) (heq : i.slot s.disk k = j.slot s.disk k') : no = no' ∧ k = k' := by
  have hh : s.holds (no, k) (i.slot s.disk k) := ⟨hk, i, hc, rfl⟩
  have hh' : s.holds (no', k') (i.slot s.disk k) := ⟨hk, j, hc', heq.symm⟩
  have hplace := h.exclusive.place_eq hh hh'
  exact ⟨congrArg Prod.fst hplace, congrArg Prod.snd hplace⟩

theorem used_blocks (h : Inv s) {no k : Nat} (hc : s.Copy no i) (hk : i.blocks s.disk k ≠ 0) :
    s.used (i.blocks s.disk k) := by
  have hlt : k < 140 := by
    by_contra hge
    exact hk (Inode.blocks_beyond (by omega))
  rw [← Inode.slot_block hlt] at hk ⊢
  exact h.used_slot hc hk

theorem blocks_inj (h : Inv s) {no no' k k' : Nat} {j : Inode} (hc : s.Copy no i)
    (hc' : s.Copy no' j) (hk : i.blocks s.disk k ≠ 0)
    (heq : i.blocks s.disk k = j.blocks s.disk k') : no = no' ∧ k = k' := by
  have hlt : k < 140 := by
    by_contra hge
    exact hk (Inode.blocks_beyond (by omega))
  have hlt' : k' < 140 := by
    by_contra hge
    rw [heq] at hk
    exact hk (Inode.blocks_beyond (by omega))
  rw [← Inode.slot_block hlt] at hk heq
  rw [← Inode.slot_block hlt'] at heq
  exact h.slot_inj hc hc' hk heq

theorem used_indirect (h : Inv s) {no : Nat} (hc : s.Copy no i) (h12 : i.i_sectors 12 ≠ 0) :
    s.used (i.i_sectors 12) := by
  have hs := h.used_slot (k := 140) hc
  rw [Inode.slot_indirect] at hs
  exact hs h12

end Inv

/-! ## The table region -/

namespace FS

variable {s s' : FS}

theorem recordAddr_congr (hsb : s'.sb = s.sb) (no : Nat) : s'.recordAddr no = s.recordAddr no := by
  unfold recordAddr
  rw [hsb]

/-- Records lie in the inode table, below the data blocks. -/
theorem recordAddr_lt (g : Geometry s) {no : Nat} (hno : no < 4096) :
    s.recordAddr no + 160 ≤ 512 * s.sb.data_start_lba := by
  unfold recordAddr
  rw [g.data_lba]
  omega

theorem recordAddr_ge (g : Geometry s) (no : Nat) : 512 * s.sb.inode_bitmap_lba ≤ s.recordAddr no := by
  unfold recordAddr
  rw [g.table_lba]
  omega

theorem record_congr (hsb : s'.sb = s.sb) {no : Nat}
    (h : Buf.Agree s'.disk s.disk (s.recordAddr no) 160) : s'.record no = s.record no := by
  unfold record
  rw [recordAddr_congr hsb]
  exact Inode.decode_congr fun a _ h2 => h _ (by omega) (by
    have h2' : a < 0 + 160 := h2
    omega)

theorem allocated_congr (hbm : s'.inode_bitmap = s.inode_bitmap) {no : Nat} :
    s'.allocated no ↔ s.allocated no := by
  unfold allocated
  rw [hbm]

end FS

/-! ## States with the same inodes

A change of the disk that leaves the records and the indirect blocks alone leaves the copies and the
blocks they name alone. -/

/-- `s'` has the inodes of `s`, and may differ in the block bitmap and in the data blocks. -/
structure SameInodes (s s' : FS) : Prop where
  sb : s'.sb = s.sb
  inode_bitmap : s'.inode_bitmap = s.inode_bitmap
  inodes : s'.inodes = s.inodes
  open_inodes : s'.open_inodes = s.open_inodes
  next : s'.next = s.next
  root : s'.root_dir_inode = s.root_dir_inode
  records : ∀ no < 4096, Buf.Agree s'.disk s.disk (s.recordAddr no) 160
  indirect : ∀ no i, s.Copy no i → i.i_sectors 12 ≠ 0 →
    Buf.Agree s'.disk s.disk (512 * i.i_sectors 12) 512

namespace SameInodes

variable {s s' : FS}

theorem record_eq (h : SameInodes s s') {no : Nat} (hno : no < 4096) :
    s'.record no = s.record no :=
  FS.record_congr h.sb (h.records no hno)

theorem copy_iff (h : SameInodes s s') {no : Nat} {i : Inode} : s'.Copy no i ↔ s.Copy no i := by
  unfold FS.Copy
  rw [FS.allocated_congr h.inode_bitmap, h.inodes]
  constructor
  · rintro ⟨ha, hi | hi⟩
    · exact ⟨ha, Or.inl hi⟩
    · exact ⟨ha, Or.inr (hi.trans (h.record_eq ha.1))⟩
  · rintro ⟨ha, hi | hi⟩
    · exact ⟨ha, Or.inl hi⟩
    · exact ⟨ha, Or.inr (hi.trans (h.record_eq ha.1).symm)⟩

theorem blocks_eq (h : SameInodes s s') {no : Nat} {i : Inode} (hc : s.Copy no i) (k : Nat) :
    i.blocks s'.disk k = i.blocks s.disk k :=
  Inode.blocks_congr (fun _ _ => rfl) (h.indirect no i hc) k

theorem slot_eq (h : SameInodes s s') {no : Nat} {i : Inode} (hc : s.Copy no i) (k : Nat) :
    i.slot s'.disk k = i.slot s.disk k :=
  Inode.slot_congr (fun _ _ => rfl) (h.indirect no i hc) k

theorem holds_iff (h : SameInodes s s') {a : Nat × Nat} {b : Nat} : s'.holds a b ↔ s.holds a b := by
  unfold FS.holds
  constructor
  · rintro ⟨hb, i, hc, hs⟩
    have hc' := h.copy_iff.1 hc
    exact ⟨hb, i, hc', (h.slot_eq hc' a.2).symm.trans hs⟩
  · rintro ⟨hb, i, hc, hs⟩
    exact ⟨hb, i, h.copy_iff.2 hc, (h.slot_eq hc a.2).trans hs⟩

theorem openTable (h : SameInodes s s') (ht : s.OpenTable) : s'.OpenTable where
  nodup := by rw [h.open_inodes]; exact ht.nodup
  mem_iff := by rw [h.open_inodes, h.inodes]; exact ht.mem_iff
  fresh := by rw [h.inodes, h.next]; exact ht.fresh
  one_object := by rw [h.inodes]; exact ht.one_object
  counted := by rw [h.inodes]; exact ht.counted
  root := by rw [h.inodes, h.root]; exact ht.root

/-- The invariant survives as long as no block in use is freed. -/
theorem inv (h : SameInodes s s') (hinv : Inv s)
    (hlen : s'.block_bitmap.bytes_len = s.block_bitmap.bytes_len)
    (hused : ∀ b, s.used b → s'.used b) : Inv s' where
  geometry := hinv.geometry.congr h.sb hlen (by rw [h.inode_bitmap])
  table := h.openTable hinv.table
  open_allocated p i hp := by
    rw [h.inodes] at hp
    exact (FS.allocated_congr h.inode_bitmap).2 (hinv.open_allocated p i hp)
  fits p i hp := by
    rw [h.inodes] at hp
    exact hinv.fits p i hp
  synced p i hp := by
    rw [h.inodes] at hp
    rw [h.record_eq (hinv.no_lt hp)]
    exact hinv.synced p i hp
  recorded no ha := by
    have ha' := (FS.allocated_congr h.inode_bitmap).1 ha
    rw [h.record_eq ha'.1]
    exact hinv.recorded no ha'
  sized no i hc := hinv.sized no i (h.copy_iff.1 hc)
  exclusive := hinv.exclusive.mono (fun _ _ => h.holds_iff.1) hused

theorem covered (h : SameInodes s s') (hcov : Covered s) : Covered s' := by
  intro no i hc k hk
  have hc' := h.copy_iff.1 hc
  rw [h.blocks_eq hc']
  exact hcov no i hc' k hk

theorem refl (s : FS) : SameInodes s s where
  sb := rfl
  inode_bitmap := rfl
  inodes := rfl
  open_inodes := rfl
  next := rfl
  root := rfl
  records _ _ _ _ _ := rfl
  indirect _ _ _ _ _ _ _ := rfl

/-- The count of heap blocks is no part of what an inode is. -/
theorem live (s : FS) (n : Nat) : SameInodes s { s with live := n } where
  sb := rfl
  inode_bitmap := rfl
  inodes := rfl
  open_inodes := rfl
  next := rfl
  root := rfl
  records _ _ _ _ _ := rfl
  indirect _ _ _ _ _ _ _ := rfl

end SameInodes

theorem Inv.live {s : FS} (h : Inv s) (n : Nat) : Inv { s with live := n } :=
  (SameInodes.live s n).inv h rfl fun _ hb => hb

/-! ## One inode changed -/

/-- `s'` is `s` with the object at `p` changed from `i` to `i'`; only the record and the indirect block
    of that inode may have changed with it. -/
structure ChangesInode (s s' : FS) (p : Nat) (i i' : Inode) : Prop where
  object : s.inodes p = some i
  no : i'.i_no = i.i_no
  sb : s'.sb = s.sb
  inode_bitmap : s'.inode_bitmap = s.inode_bitmap
  inodes : s'.inodes = Function.update s.inodes p (some i')
  open_inodes : s'.open_inodes = s.open_inodes
  next : s'.next = s.next
  root : s'.root_dir_inode = s.root_dir_inode
  records : ∀ no < 4096, no ≠ i.i_no → Buf.Agree s'.disk s.disk (s.recordAddr no) 160
  indirect : ∀ no j, s.Copy no j → no ≠ i.i_no → j.i_sectors 12 ≠ 0 →
    Buf.Agree s'.disk s.disk (512 * j.i_sectors 12) 512

namespace ChangesInode

variable {s s' : FS} {p : Nat} {i i' : Inode}

theorem object' (h : ChangesInode s s' p i i') : s'.inodes p = some i' := by
  rw [h.inodes, Function.update_self]

theorem inodes_other (h : ChangesInode s s' p i i') {q : Nat} (hq : q ≠ p) :
    s'.inodes q = s.inodes q := by
  rw [h.inodes, Function.update_of_ne hq]

/-- Every object of `s'` is the changed one or an object of `s`. -/
theorem inodes_cases (h : ChangesInode s s' p i i') {q : Nat} {j : Inode}
    (hq : s'.inodes q = some j) : (q = p ∧ j = i') ∨ (q ≠ p ∧ s.inodes q = some j) := by
  by_cases hqp : q = p
  · subst hqp
    rw [h.object'] at hq
    exact Or.inl ⟨rfl, (Option.some.inj hq).symm⟩
  · rw [h.inodes_other hqp] at hq
    exact Or.inr ⟨hqp, hq⟩

theorem record_other (h : ChangesInode s s' p i i') {no : Nat} (hno : no < 4096)
    (hne : no ≠ i.i_no) : s'.record no = s.record no :=
  FS.record_congr h.sb (h.records no hno hne)

theorem openTable (h : ChangesInode s s' p i i') (ht : s.OpenTable) (hcnt : 0 < i'.i_open_cnts) :
    s'.OpenTable where
  nodup := by rw [h.open_inodes]; exact ht.nodup
  mem_iff q := by
    rw [h.open_inodes, ht.mem_iff]
    by_cases hqp : q = p
    · subst hqp
      exact ⟨fun _ => ⟨i', h.object'⟩, fun _ => ⟨i, h.object⟩⟩
    · rw [h.inodes_other hqp]
  fresh q j hq := by
    rw [h.next]
    rcases h.inodes_cases hq with ⟨rfl, -⟩ | ⟨-, hq⟩
    · exact ht.fresh _ _ h.object
    · exact ht.fresh _ _ hq
  one_object q q' j j' hq hq' hno := by
    rcases h.inodes_cases hq with ⟨rfl, rfl⟩ | ⟨hne, hq⟩ <;>
      rcases h.inodes_cases hq' with ⟨rfl, rfl⟩ | ⟨hne', hq'⟩
    · rfl
    · exact ht.one_object _ _ _ _ h.object hq' (h.no.symm.trans hno)
    · exact ht.one_object _ _ _ _ hq h.object (hno.trans h.no)
    · exact ht.one_object _ _ _ _ hq hq' hno
  counted q j hq := by
    rcases h.inodes_cases hq with ⟨-, rfl⟩ | ⟨-, hq⟩
    · exact hcnt
    · exact ht.counted _ _ hq
  root := by
    obtain ⟨r, hr, hr0⟩ := ht.root
    rw [h.root]
    by_cases hp : s.root_dir_inode = p
    · rw [hp] at hr ⊢
      have hir : i = r := Option.some.inj (h.object.symm.trans hr)
      exact ⟨i', h.object', by rw [h.no, hir, hr0]⟩
    · exact ⟨r, by rwa [h.inodes_other hp], hr0⟩

/-- The copies of the other inodes are the same. -/
theorem copy_other (h : ChangesInode s s' p i i') {no : Nat} {j : Inode} (hne : no ≠ i.i_no) :
    s'.Copy no j ↔ s.Copy no j := by
  unfold FS.Copy
  rw [FS.allocated_congr h.inode_bitmap]
  constructor
  · rintro ⟨ha, ⟨q, hq, hno⟩ | hj⟩
    · rcases h.inodes_cases hq with ⟨-, rfl⟩ | ⟨-, hq⟩
      · exact absurd (hno.symm.trans h.no) hne
      · exact ⟨ha, Or.inl ⟨q, hq, hno⟩⟩
    · exact ⟨ha, Or.inr (hj.trans (h.record_other ha.1 hne))⟩
  · rintro ⟨ha, ⟨q, hq, hno⟩ | hj⟩
    · refine ⟨ha, Or.inl ⟨q, ?_, hno⟩⟩
      rw [h.inodes_other, hq]
      rintro rfl
      have hij : i = j := Option.some.inj (h.object.symm.trans hq)
      exact hne (hno.symm.trans (congrArg Inode.i_no hij.symm))
    · exact ⟨ha, Or.inr (hj.trans (h.record_other ha.1 hne).symm)⟩

/-- The copies of the changed inode are the changed object and its record. -/
theorem copy_self (h : ChangesInode s s' p i i') (ht : s.OpenTable) {j : Inode}
    (hc : s'.Copy i.i_no j) : j = i' ∨ j = s'.record i.i_no := by
  rcases hc.2 with ⟨q, hq, hno⟩ | hj
  · rcases h.inodes_cases hq with ⟨-, rfl⟩ | ⟨hqp, hq⟩
    · exact Or.inl rfl
    · exact absurd (ht.one_object _ _ _ _ hq h.object hno) hqp
  · exact Or.inr hj

theorem slot_other (h : ChangesInode s s' p i i') {no : Nat} {j : Inode} (hc : s.Copy no j)
    (hne : no ≠ i.i_no) (k : Nat) : j.slot s'.disk k = j.slot s.disk k :=
  Inode.slot_congr (fun _ _ => rfl) (h.indirect no j hc hne) k

theorem blocks_other (h : ChangesInode s s' p i i') {no : Nat} {j : Inode} (hc : s.Copy no j)
    (hne : no ≠ i.i_no) (k : Nat) : j.blocks s'.disk k = j.blocks s.disk k :=
  Inode.blocks_congr (fun _ _ => rfl) (h.indirect no j hc hne) k

/-- What is held in `s'` was held before at the same place, or is a block of the changed object. -/
theorem holds_cases (h : ChangesInode s s' p i i') (ht : s.OpenTable)
    (hsync : i'.Synced (s'.record i.i_no)) {a : Nat × Nat} {b : Nat} (hb : s'.holds a b) :
    s.holds a b ∨ (a.1 = i.i_no ∧ b ≠ 0 ∧ i'.slot s'.disk a.2 = b) := by
  obtain ⟨hb0, j, hc, hslot⟩ := hb
  by_cases hne : a.1 = i.i_no
  · rw [hne] at hc
    refine Or.inr ⟨hne, hb0, ?_⟩
    rcases h.copy_self ht hc with rfl | rfl
    · exact hslot
    · rw [hsync.slot_eq (by rwa [hslot]), hslot]
  · have hc' := (h.copy_other hne).1 hc
    exact Or.inl ⟨hb0, j, hc', by rw [← h.slot_other hc' hne, hslot]⟩

theorem trans {s'' : FS} {i'' : Inode} (h : ChangesInode s s' p i i')
    (h' : ChangesInode s' s'' p i' i'') : ChangesInode s s'' p i i'' where
  object := h.object
  no := h'.no.trans h.no
  sb := h'.sb.trans h.sb
  inode_bitmap := h'.inode_bitmap.trans h.inode_bitmap
  inodes := by rw [h'.inodes, h.inodes, Function.update_idem]
  open_inodes := h'.open_inodes.trans h.open_inodes
  next := h'.next.trans h.next
  root := h'.root.trans h.root
  records no hno hne := by
    have h2 := h'.records no hno (by rwa [h.no])
    rw [FS.recordAddr_congr h.sb] at h2
    exact h2.trans (h.records no hno hne)
  indirect no j hc hne h12 :=
    (h'.indirect no j ((h.copy_other hne).2 hc) (by rwa [h.no]) h12).trans
      (h.indirect no j hc hne h12)

/-- The invariant after one inode changed, given what is to be known about that inode. -/
theorem inv (h : ChangesInode s s' p i i') (hinv : Inv s)
    (hlen : s'.block_bitmap.bytes_len = s.block_bitmap.bytes_len) (hcnt : 0 < i'.i_open_cnts)
    (hfits : i'.Fits) (hsync : i'.Synced (s'.record i.i_no)) (hsize : i'.i_size ≤ MAX_FILE_SIZE)
    (hexcl : Exclusive s'.holds s'.used) : Inv s' where
  geometry := hinv.geometry.congr h.sb hlen (by rw [h.inode_bitmap])
  table := h.openTable hinv.table hcnt
  open_allocated q j hq := by
    rw [FS.allocated_congr h.inode_bitmap]
    rcases h.inodes_cases hq with ⟨-, rfl⟩ | ⟨-, hq⟩
    · rw [h.no]
      exact hinv.open_allocated _ _ h.object
    · exact hinv.open_allocated _ _ hq
  fits q j hq := by
    rcases h.inodes_cases hq with ⟨-, rfl⟩ | ⟨-, hq⟩
    · exact hfits
    · exact hinv.fits _ _ hq
  synced q j hq := by
    rcases h.inodes_cases hq with ⟨-, rfl⟩ | ⟨hqp, hq⟩
    · rw [h.no]
      exact hsync
    · have hne : j.i_no ≠ i.i_no := fun heq =>
        hqp (hinv.table.one_object _ _ _ _ hq h.object heq)
      rw [h.record_other (hinv.no_lt hq) hne]
      exact hinv.synced _ _ hq
  recorded no ha := by
    by_cases hne : no = i.i_no
    · rw [hne, hsync.no, h.no]
    · have ha' := (FS.allocated_congr h.inode_bitmap).1 ha
      rw [h.record_other ha'.1 hne]
      exact hinv.recorded no ha'
  sized no j hc := by
    by_cases hne : no = i.i_no
    · rw [hne] at hc
      rcases h.copy_self hinv.table hc with rfl | rfl
      · exact hsize
      · rw [hsync.size]
        exact hsize
    · exact hinv.sized no j ((h.copy_other hne).1 hc)
  exclusive := hexcl

end ChangesInode

theorem SameInodes.changes {s s' : FS} {p : Nat} {i : Inode} (h : SameInodes s s')
    (hp : s.inodes p = some i) : ChangesInode s s' p i i where
  object := hp
  no := rfl
  sb := h.sb
  inode_bitmap := h.inode_bitmap
  inodes := by rw [h.inodes, ← hp, Function.update_eq_self]
  open_inodes := h.open_inodes
  next := h.next
  root := h.root
  records no hno _ := h.records no hno
  indirect no j hc _ h12 := h.indirect no j hc h12

end RecoverOS
