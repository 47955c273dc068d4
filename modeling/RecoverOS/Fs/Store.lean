import RecoverOS.Fs.Texts

set_option autoImplicit false

/-! # Files are lists of bytes

What processes see of the file system: files that hold a list of bytes each, and open files with a position.
Every call of `fs/fs.c` and `fs/file.c` that succeeds does to the mounted partition, in all of its blocks,
bitmaps and inodes, what one step does here. -/

namespace RecoverOS

/-! ## What it is for -/

/-- The text of every file, and the file and the position of every slot of `file_table`. -/
structure Store where
  files : Nat → Option (List Byte)
  slots : Nat → Option (Nat × Nat)

namespace Store

/-- A call that succeeded, with what it returned. -/
inductive Event where
  | created (idx no : Nat)
  | opened (idx no : Nat)
  | read (idx count : Nat) (bytes : List Byte)
  | wrote (idx : Nat) (bytes : List Byte)
  | moved (idx : Nat) (offset : Int) (whence : Kernel.Whence) (pos : Nat)
  | closed (idx : Nat)
  | removed (no : Nat)

/-- The text and the position of an open file. -/
def At (st : Store) (idx no pos : Nat) (text : List Byte) : Prop :=
  st.slots idx = some (no, pos) ∧ st.files no = some text ∧ pos ≤ text.length

/-- A slot is filled or emptied. -/
def setSlot (st : Store) (idx : Nat) (f : Option (Nat × Nat)) : Store :=
  { st with slots := Function.update st.slots idx f }

/-- A file gets a text, or is no more. -/
def setFile (st : Store) (no : Nat) (text : Option (List Byte)) : Store :=
  { st with files := Function.update st.files no text }

/-- Where a seek goes. -/
def target (pos len : Nat) (offset : Int) : Kernel.Whence → Int
  | .SEEK_SET => offset
  | .SEEK_CUR => pos + offset
  | .SEEK_END => len + offset

/-- A new file is empty, a file is opened at its start, a read returns the bytes from the position on, a write
    puts its bytes there, and only a closed file is removed. -/
def Step (st : Store) : Event → Store → Prop
  | .created idx no, st' => st.files no = none ∧ st' = (st.setFile no (some [])).setSlot idx (some (no, 0))
  | .opened idx no, st' => st.files no ≠ none ∧ st' = st.setSlot idx (some (no, 0))
  | .read idx count bytes, st' => ∃ no pos text, st.At idx no pos text ∧
      bytes = (text.drop pos).take count ∧ st' = st.setSlot idx (some (no, pos + bytes.length))
  | .wrote idx bytes, st' => ∃ no pos text, st.At idx no pos text ∧
      st' = (st.setFile no (some (overwrite text pos bytes))).setSlot idx (some (no, pos + bytes.length))
  | .moved idx offset whence pos', st' => ∃ no pos text, st.At idx no pos text ∧ pos' ≤ text.length ∧
      (pos' : Int) = target pos text.length offset whence ∧ st' = st.setSlot idx (some (no, pos'))
  | .closed idx, st' => st' = st.setSlot idx none
  | .removed no, st' => st.files no ≠ none ∧ (∀ idx pos, st.slots idx ≠ some (no, pos)) ∧
      st' = st.setFile no none

/-- Before anything is created. -/
def empty : Store := ⟨fun _ => none, fun _ => none⟩

end Store

namespace Kernel

variable {P : Type} [DecidableEq P]

/-! ## The calls -/

/-- The inode number of the open file in a slot. -/
def SlotNo (s : Kernel P) (idx no : Nat) : Prop :=
  ∃ inode i, (s.file_table idx).fd_inode = some inode ∧ s.fs.inodes inode = some i ∧ i.i_no = no

/-- A call of a process that succeeds. A read that returns -1 and a write that returns less than its count are
    none, nor is a write that ends on the boundary of a block other than its first: it does not store the
    last block. -/
inductive Does : Kernel P → Store.Event → Kernel P → Prop where
  | create {p : P} {path : List Byte} {flag fd idx no : Nat} {s s' : Kernel P}
      (h : fileCreate p path flag s = .ok (some fd, s')) (hfd : s'.fd_table p fd = some idx)
      (hno : s'.SlotNo idx no) : Does s (.created idx no) s'
  | open {p : P} {path : List Byte} {flag fd idx no : Nat} {s s' : Kernel P}
      (h : fileOpen p path flag s = .ok (some fd, s')) (hfd : s'.fd_table p fd = some idx)
      (hres : s.fs.resolve 0 path = some no) (hno : no ≠ 0) : Does s (.opened idx no) s'
  | read {p : P} {mallocOk : Nat → Bool} {fd idx count n : Nat} {buf out : Buf} {s s' : Kernel P}
      (hcount : count < 2 ^ 64) (h : sysRead p mallocOk fd buf count s = .ok ((n, out), s'))
      (hfd : s.fd_table p fd = some idx) : Does s (.read idx count (Ioqueue.firstBytes out n)) s'
  | write {p : P} {fd idx count : Nat} {buf : Buf} {s s' : Kernel P}
      (h : sysWrite p fd buf count s = .ok ((count : Int), s')) (hfd : s.fd_table p fd = some idx)
      (hb : ¬ EndsOnBoundary (s.file_table idx).fd_pos count) :
      Does s (.wrote idx (Ioqueue.firstBytes buf count)) s'
  | lseek {p : P} {fd idx pos : Nat} {offset : Int} {whence : Whence} {s s' : Kernel P}
      (hoffset : -2 ^ 63 ≤ offset ∧ offset < 2 ^ 63)
      (h : sysLseek p fd offset whence s = .ok ((pos : Int), s')) (hfd : s.fd_table p fd = some idx) :
      Does s (.moved idx offset whence pos) s'
  | close {p : P} {fd idx : Nat} {s s' : Kernel P} (h : sysClose p fd s = .ok ((), s'))
      (hfd : s.fd_table p fd = some idx) : Does s (.closed idx) s'
  | unlink {mapped : Bool} {p : P} {path : List Byte} {no : Nat} {s s' : Kernel P}
      (h : sysUnlink mapped p path s = .ok (0, s')) (hno : s.fs.lastNo 0 path = some no) :
      Does s (.removed no) s'

/-! ## What the store stands for -/

/-- The file and the position of a slot of `file_table`. -/
def slotOf (s : Kernel P) (idx : Nat) : Option (Nat × Nat) := do
  let inode ← (s.file_table idx).fd_inode
  let i ← s.fs.inodes inode
  pure (i.i_no, (s.file_table idx).fd_pos)

/-- The files of the store are the allocated inodes but the root directory, with the texts that are in their
    blocks, and its slots those of `file_table`. -/
structure Stands (st : Store) (s : Kernel P) : Prop where
  root : st.files 0 = none
  none_iff : ∀ no, no ≠ 0 → (st.files no = none ↔ ¬ s.fs.allocated no)
  text : ∀ no text, st.files no = some text → s.fs.HasText no text
  slots : ∀ idx, st.slots idx = s.slotOf idx

/-- The slots that refer to an inode. -/
def slotRefs (s : Kernel P) (inode : Nat) : Nat :=
  countTo (fun i => (s.file_table i).fd_inode) (List.range MAX_FILES_OPEN) inode

/-- Every reference to an inode is that of a slot. -/
structure SlotsCount (s : Kernel P) : Prop where
  bound : ∀ idx inode, (s.file_table idx).fd_inode = some inode → idx < MAX_FILES_OPEN
  count : ∀ inode, inode ≠ s.fs.root_dir_inode → s.fs.countAt inode = s.slotRefs inode

/-- What every call keeps. -/
structure Intact (part : Partition) (deleted : Bool) (s : Kernel P) : Prop extends OnDisk part deleted s where
  counted : SlotsCount s

section Calls

variable {st : Store} {s s' : Kernel P} {p : P} {path : List Byte} {fd idx count no inode : Nat} {f : File}
  {buf : Buf} {part : Partition} {deleted : Bool} {i : Inode}

omit [DecidableEq P] in
theorem slotOf_eq (hino : (s.file_table idx).fd_inode = some inode) (hi : s.fs.inodes inode = some i) :
    s.slotOf idx = some (i.i_no, (s.file_table idx).fd_pos) := by
  unfold slotOf
  rw [hino]
  show (s.fs.inodes inode).bind _ = _
  rw [hi]
  rfl

omit [DecidableEq P] in
theorem slotOf_empty (hino : (s.file_table idx).fd_inode = none) : s.slotOf idx = none := by
  unfold slotOf
  rw [hino]
  rfl

omit [DecidableEq P] in
theorem slotOf_some {pos : Nat} (h : s.slotOf idx = some (no, pos)) :
    ∃ inode i, (s.file_table idx).fd_inode = some inode ∧ s.fs.inodes inode = some i ∧ i.i_no = no := by
  cases hino : (s.file_table idx).fd_inode with
  | none =>
      rw [slotOf_empty hino] at h
      cases h
  | some inode =>
      cases hi : s.fs.inodes inode with
      | none =>
          unfold slotOf at h
          rw [hino] at h
          change (s.fs.inodes inode).bind _ = _ at h
          rw [hi] at h
          cases h
      | some i =>
          rw [slotOf_eq hino hi] at h
          cases h
          exact ⟨inode, i, rfl, hi, rfl⟩

omit [DecidableEq P] in
/-- A slot shows the number of the inode, not what else is in its object. -/
theorem slotOf_congr (hslot : s'.file_table idx = s.file_table idx)
    (hno : ∀ inode, (s.file_table idx).fd_inode = some inode →
      (s'.fs.inodes inode).map Inode.i_no = (s.fs.inodes inode).map Inode.i_no) :
    s'.slotOf idx = s.slotOf idx := by
  unfold slotOf
  rw [hslot]
  cases hino : (s.file_table idx).fd_inode with
  | none => rfl
  | some inode =>
      have hmap := hno inode hino
      show (s'.fs.inodes inode).bind _ = (s.fs.inodes inode).bind _
      cases hi' : s'.fs.inodes inode with
      | none =>
          cases hi : s.fs.inodes inode with
          | none => rfl
          | some i =>
              rw [hi, hi'] at hmap
              cases hmap
      | some i' =>
          cases hi : s.fs.inodes inode with
          | none =>
              rw [hi, hi'] at hmap
              cases hmap
          | some i =>
              rw [hi, hi'] at hmap
              have heq : i'.i_no = i.i_no := Option.some.inj hmap
              show some (i'.i_no, _) = some (i.i_no, _)
              rw [heq]

/-! ## References -/

namespace SlotsCount

omit [DecidableEq P] in
/-- The file system changed below the open files. -/
theorem keep (h : SlotsCount s) (htable : s'.file_table = Function.update s.file_table idx f)
    (hino : f.fd_inode = (s.file_table idx).fd_inode)
    (hroot : s'.fs.root_dir_inode = s.fs.root_dir_inode)
    (hcount : ∀ q, q ≠ s.fs.root_dir_inode → s'.fs.countAt q = s.fs.countAt q) : SlotsCount s' := by
  have hsame : ∀ i, (s'.file_table i).fd_inode = (s.file_table i).fd_inode := by
    intro i
    rw [htable]
    by_cases hi : i = idx
    · rw [hi, Function.update_self, hino]
    · rw [Function.update_of_ne hi]
  refine ⟨fun idx' inode h' => h.bound idx' inode (hsame idx' ▸ h'), fun q hq => ?_⟩
  rw [hroot] at hq
  rw [hcount q hq, h.count q hq]
  unfold slotRefs
  rw [funext hsame]

omit [DecidableEq P] in
/-- An inode was opened and put in a free slot. -/
theorem install (h : SlotsCount s) (htaken : Taken s.fs inode s'.fs) (hidx : getFreeSlotInGlobal s = some idx)
    {flag : Nat} (htable : s'.file_table = Function.update s.file_table idx ⟨0, flag, some inode⟩) :
    SlotsCount s' := by
  obtain ⟨hlt, hfree⟩ := Session.getFreeSlotInGlobal_some hidx
  refine ⟨fun idx' inode' hino => ?_, fun q hq => ?_⟩
  · rw [htable] at hino
    by_cases heq : idx' = idx
    · rw [heq]
      exact hlt
    · rw [Function.update_of_ne heq] at hino
      exact h.bound idx' inode' hino
  · rw [htaken.root] at hq
    have hslots := Session.countTo_setSlot s.file_table hlt ⟨0, flag, some inode⟩ q
    rw [hfree, if_neg nofun, ← htable] at hslots
    simp only [Option.some.injEq] at hslots
    have hcount := h.count q hq
    have htook := htaken.count q hq
    unfold slotRefs at hcount ⊢
    by_cases hqi : q = inode
    · rw [if_pos hqi] at htook
      rw [if_pos hqi.symm] at hslots
      omega
    · rw [if_neg hqi] at htook
      rw [if_neg (Ne.symm hqi)] at hslots
      omega

omit [DecidableEq P] in
/-- The inode of a slot was closed. -/
theorem release (h : SlotsCount s) (hino : (s.file_table idx).fd_inode = some inode)
    (htaken : Taken s'.fs inode s.fs)
    (htable : s'.file_table = Function.update s.file_table idx { s.file_table idx with fd_inode := none }) :
    SlotsCount s' := by
  refine ⟨fun idx' inode' hino' => ?_, fun q hq => ?_⟩
  · rw [htable] at hino'
    by_cases heq : idx' = idx
    · rw [heq, Function.update_self] at hino'
      cases hino'
    · rw [Function.update_of_ne heq] at hino'
      exact h.bound idx' inode' hino'
  · have hslots := Session.countTo_setSlot s.file_table (h.bound idx inode hino)
      { s.file_table idx with fd_inode := none } q
    rw [hino, ← htable] at hslots
    simp only [Option.some.injEq, reduceCtorEq, if_false] at hslots
    have hcount := h.count q fun heq => hq (heq.trans htaken.root)
    have htook := htaken.count q hq
    unfold slotRefs at hcount ⊢
    by_cases hqi : q = inode
    · rw [if_pos hqi] at htook
      rw [if_pos hqi.symm] at hslots
      omega
    · rw [if_neg hqi] at htook
      rw [if_neg (Ne.symm hqi)] at hslots
      omega

omit [DecidableEq P] in
/-- A slot refers to an inode that is open. -/
theorem pos (h : SlotsCount s) (hino : (s.file_table idx).fd_inode = some inode) : 0 < s.slotRefs inode :=
  countTo_pos (List.mem_range.2 (h.bound idx inode hino)) hino

end SlotsCount

/-! ## One slot and one file -/

omit [DecidableEq P] in
theorem Stands.allocated (h : Stands st s) {text : List Byte} (hno : st.files no = some text) :
    no ≠ 0 ∧ s.fs.allocated no := by
  have hne : no ≠ 0 := by
    rintro rfl
    rw [h.root] at hno
    cases hno
  refine ⟨hne, by_contra fun hnot => ?_⟩
  rw [(h.none_iff no hne).2 hnot] at hno
  cases hno

omit [DecidableEq P] in
/-- The other slots show what they showed. -/
theorem Stands.slots_store (h : Stands st s) {f' : Option (Nat × Nat)}
    (htable : s'.file_table = Function.update s.file_table idx f)
    (hobj : ∀ idx' q, idx' ≠ idx → (s.file_table idx').fd_inode = some q →
      (s'.fs.inodes q).map Inode.i_no = (s.fs.inodes q).map Inode.i_no)
    (hf : s'.slotOf idx = f') (idx' : Nat) : Function.update st.slots idx f' idx' = s'.slotOf idx' := by
  by_cases hidx : idx' = idx
  · rw [hidx, Function.update_self, hf]
  · rw [Function.update_of_ne hidx, h.slots]
    refine (slotOf_congr ?_ fun q hq => hobj idx' q hidx hq).symm
    rw [htable, Function.update_of_ne hidx]

omit [DecidableEq P] in
/-- What a slot shows that was stored. -/
theorem slotOf_store (htable : s'.file_table = Function.update s.file_table idx f)
    (hino : f.fd_inode = some inode) (hi : s'.fs.inodes inode = some i) : s'.slotOf idx = some (i.i_no, f.fd_pos) := by
  have hslot : s'.file_table idx = f := by rw [htable, Function.update_self]
  rw [slotOf_eq (by rw [hslot, hino]) hi, hslot]

omit [DecidableEq P] in
/-- The store after a call that leaves every file its text. -/
theorem Stands.setSlot (h : Stands st s) {f' : Option (Nat × Nat)}
    (htable : s'.file_table = Function.update s.file_table idx f)
    (hobj : ∀ idx' q, idx' ≠ idx → (s.file_table idx').fd_inode = some q →
      (s'.fs.inodes q).map Inode.i_no = (s.fs.inodes q).map Inode.i_no)
    (hf : s'.slotOf idx = f')
    (hbm : s'.fs.inode_bitmap = s.fs.inode_bitmap) (htext : ∀ no, KeepsText s.fs s'.fs no) :
    Stands (st.setSlot idx f') s' where
  root := h.root
  none_iff no hno := (h.none_iff no hno).trans (not_congr (FS.allocated_congr hbm).symm)
  text no text hno := (h.text no text hno).keep (htext no)
  slots := h.slots_store htable hobj hf

omit [DecidableEq P] in
/-- What the store says of a slot with an open inode. -/
theorem Stands.at (h : Stands st s) (hd : OnDisk part deleted s)
    (hino : (s.file_table idx).fd_inode = some inode) (hi : s.fs.inodes inode = some i) :
    st.At idx i.i_no (s.file_table idx).fd_pos (i.text s.fs.disk) := by
  obtain ⟨m, hm⟩ := hd.rooted.fs
  have hne : i.i_no ≠ 0 := by
    intro h0
    obtain ⟨r, hr, hr0, -⟩ := hm.object
    exact hd.files idx inode hino (hm.dir.inv.table.one_object _ _ _ _ hi hr (h0.trans hr0.symm))
  have hall : s.fs.allocated i.i_no := hm.dir.inv.open_allocated _ _ hi
  refine ⟨(h.slots idx).trans (slotOf_eq hino hi), ?_, ?_⟩
  · cases hfile : st.files i.i_no with
    | none => exact absurd hall ((h.none_iff _ hne).1 hfile)
    | some text => rw [← (h.text _ text hfile).2 i (hm.dir.inv.copy hi)]
  · rw [Inode.length_text]
    exact (hd.positioned idx).inside inode i hino hi

/-! ## Reading -/

omit [DecidableEq P] in
/-- What a `sys_read` that does not return -1 has done. -/
theorem OnDisk.read_eq {mallocOk : Nat → Bool} {n : Nat} {out : Buf} (hd : OnDisk part deleted s)
    (hcount : count < 2 ^ 64) (hrun : sysRead p mallocOk fd buf count s = .ok ((n, out), s')) :
    ∃ idx inode i, s.fd_table p fd = some idx ∧ (s.file_table idx).fd_inode = some inode ∧
      s.fs.inodes inode = some i ∧ n = min count (i.i_size - (s.file_table idx).fd_pos) ∧
      (s.file_table idx).fd_pos + n ≤ i.i_size ∧ i.i_size ≤ 71680 ∧
      (∀ k < n, out k = i.byte s.fs.disk ((s.file_table idx).fd_pos + k)) ∧
      s' = { s with
        file_table := Function.update s.file_table idx
          { s.file_table idx with fd_pos := (s.file_table idx).fd_pos + n } } := by
  obtain ⟨m, hm⟩ := hd.rooted.fs
  unfold Kernel.sysRead at hrun
  obtain ⟨⟨idx, f, inode⟩, s1, hopen, h1⟩ := Prog.bind_eq_ok.1 hrun
  obtain ⟨-, hfd, -, rfl, hino, rfl⟩ := openFile_eq_ok.1 hopen
  obtain ⟨ret, s2, hread, h2⟩ := Prog.bind_eq_ok.1 h1
  obtain ⟨t, hread', rfl⟩ := onFs_eq_ok.1 hread
  cases h2
  have hsame := inodeRead_state hread'
  rw [hsame] at hread' ⊢
  cases hp : s1.fs.inodes inode with
  | none =>
      unfold inodeRead at hread'
      obtain ⟨i, s3, hat, -⟩ := Prog.bind_eq_ok.1 hread'
      rw [(inodeAt_eq_ok.1 hat).1] at hp
      cases hp
  | some i =>
      have hsize := hm.dir.inv.size_le hp
      have hpos := (hd.positioned idx).inside inode i hino hp
      obtain ⟨hneg, -⟩ | ⟨n', hn, hle, hfit, hnot, hmem⟩ := inodeRead_returned hp hsize hpos hcount hread'
      · have hneg' : (n : Int) = -1 := hneg
        omega
      rw [readRequest_inside hsize hpos hfit] at hmem
      obtain ⟨out', hrun', hin, -⟩ := inodeRead_run mallocOk buf hp hsize hpos (by omega) hfit hmem
      rw [hread'] at hrun'
      simp only [Except.ok.injEq, Prod.mk.injEq, and_true] at hrun'
      obtain ⟨hn', rfl⟩ := hrun'
      refine ⟨idx, inode, i, hfd, hino, hp, Int.ofNat.inj hn', by omega, hsize,
        fun k hk => hin k (by omega), ?_⟩
      have hsum : u64 ((s1.file_table idx).fd_pos + u64OfInt (n : Int)) = (s1.file_table idx).fd_pos + n :=
        (advances_nat (by omega)).1
      rw [← hsum]

omit [DecidableEq P] in
/-- One slot of an inode that stays open is stored, with a position inside the file. -/
theorem OnDisk.store {inode pos : Nat} {i : Inode} (hd : OnDisk part deleted s)
    (hino : (s.file_table idx).fd_inode = some inode) (hp : s.fs.inodes inode = some i) (hpos : pos ≤ i.i_size)
    (hsize : i.i_size ≤ 71680) :
    OnDisk part deleted
      { s with file_table := Function.update s.file_table idx { s.file_table idx with fd_pos := pos } } where
  rooted := hd.rooted.congr rfl hd.rooted.fs
  positioned := hd.positioned.store (refl_of Grows _) rfl (Placed.move (hd.positioned idx) hino (by omega)
    fun j hj => by
      rw [hp] at hj
      cases hj
      exact hpos)
  files idx' inode' hino' := by
    by_cases hidx : idx' = idx
    · rw [hidx] at hino'
      refine hd.files idx inode' ?_
      simpa only [Function.update_self] using hino'
    · refine hd.files idx' inode' ?_
      simpa only [Function.update_of_ne hidx] using hino'
  stored := hd.stored
  bits := hd.bits

omit [DecidableEq P] in
theorem length_firstBytes (buf : Buf) (n : Nat) : (Ioqueue.firstBytes buf n).length = n := by
  unfold Ioqueue.firstBytes
  rw [List.length_map, List.length_range]

omit [DecidableEq P] in
theorem firstBytes_text {i : Inode} {disk out : Buf} {pos n : Nat} (hn : n = min count (i.i_size - pos))
    (hout : ∀ k < n, out k = i.byte disk (pos + k)) :
    Ioqueue.firstBytes out n = ((i.text disk).drop pos).take count := by
  refine List.ext_getElem? fun k => ?_
  unfold Ioqueue.firstBytes
  rw [List.getElem?_map, List.getElem?_take, List.getElem?_drop, Inode.getElem?_text]
  by_cases hk : k < n
  · rw [List.getElem?_range hk, if_pos (by omega), if_pos (by omega), ← hout k hk]
    rfl
  · rw [List.getElem?_eq_none (by rw [List.length_range]; omega)]
    by_cases hc : k < count
    · rw [if_pos hc, if_neg (by omega)]
      rfl
    · rw [if_neg hc]
      rfl

omit [DecidableEq P] in
/-- A call that moved one open file is done with. -/
theorem Stands.move (h : Stands st s) (hd : Intact part deleted s) {pos : Nat}
    (hino : (s.file_table idx).fd_inode = some inode) (hp : s.fs.inodes inode = some i)
    (hs' : s' = { s with
      file_table := Function.update s.file_table idx { s.file_table idx with fd_pos := pos } })
    (hd' : OnDisk part deleted s') :
    Intact part deleted s' ∧ Stands (st.setSlot idx (some (i.i_no, pos))) s' := by
  subst hs'
  exact ⟨⟨hd', hd.counted.keep rfl rfl rfl fun _ _ => rfl⟩,
    h.setSlot rfl (fun _ _ _ _ => rfl)
      (slotOf_store (f := { s.file_table idx with fd_pos := pos }) rfl hino hp) rfl fun no => .refl _ no⟩

omit [DecidableEq P] in
theorem Stands.read {mallocOk : Nat → Bool} {n : Nat} {out : Buf} (h : Stands st s)
    (hd : Intact part deleted s) (hcount : count < 2 ^ 64)
    (hrun : sysRead p mallocOk fd buf count s = .ok ((n, out), s')) (hfd : s.fd_table p fd = some idx) :
    Intact part deleted s' ∧
      ∃ st', st.Step (.read idx count (Ioqueue.firstBytes out n)) st' ∧ Stands st' s' := by
  obtain ⟨idx', inode, i, hfd', hino, hp, hn, hle, hsize, hout, hs'⟩ := hd.read_eq hcount hrun
  rw [hfd] at hfd'
  cases hfd'
  have hd' := hd.store hino hp hle hsize
  rw [← hs'] at hd'
  obtain ⟨hintact, hstands⟩ := h.move hd hino hp hs' hd'
  refine ⟨hintact, _, ⟨_, _, _, h.at hd.toOnDisk hino hp, firstBytes_text hn hout, rfl⟩, ?_⟩
  rw [length_firstBytes]
  exact hstands

/-! ## Writing -/

omit [DecidableEq P] in
/-- The store after a call that changed the text of one file and leaves the others theirs. -/
theorem Stands.setFile (h : Stands st s) {text : List Byte} {f' : Option (Nat × Nat)}
    (hne : no ≠ 0) (htable : s'.file_table = Function.update s.file_table idx f)
    (hobj : ∀ idx' q, idx' ≠ idx → (s.file_table idx').fd_inode = some q →
      (s'.fs.inodes q).map Inode.i_no = (s.fs.inodes q).map Inode.i_no)
    (hf : s'.slotOf idx = f')
    (hall : ∀ k, s'.fs.allocated k ↔ s.fs.allocated k ∨ k = no) (htext : s'.fs.HasText no text)
    (hothers : ∀ k, k ≠ 0 → k ≠ no → KeepsText s.fs s'.fs k) :
    Stands ((st.setFile no (some text)).setSlot idx f') s' where
  root := (Function.update_of_ne hne.symm _ _).trans h.root
  none_iff k hk := by
    show Function.update st.files no (some text) k = none ↔ _
    rw [hall]
    by_cases hkn : k = no
    · rw [hkn, Function.update_self]
      exact ⟨fun heq => absurd heq (Option.some_ne_none text), fun hnot => absurd (.inr rfl) hnot⟩
    · rw [Function.update_of_ne hkn, h.none_iff k hk, or_iff_left hkn]
  text k text' hk := by
    have hk' : Function.update st.files no (some text) k = some text' := hk
    by_cases hkn : k = no
    · rw [hkn, Function.update_self] at hk'
      cases hk'
      exact hkn ▸ htext
    · rw [Function.update_of_ne hkn] at hk'
      exact (h.text k text' hk').keep (hothers k (h.allocated hk').1 hkn)
  slots := h.slots_store htable hobj hf

omit [DecidableEq P] in
theorem Stands.write (h : Stands st s) (hd : Intact part deleted s)
    (hrun : sysWrite p fd buf count s = .ok ((count : Int), s')) (hfd : s.fd_table p fd = some idx)
    (hb : ¬ EndsOnBoundary (s.file_table idx).fd_pos count) :
    Intact part deleted s' ∧
      ∃ st', st.Step (.wrote idx (Ioqueue.firstBytes buf count)) st' ∧ Stands st' s' := by
  have hd' := hd.write hrun
  obtain ⟨m, hm⟩ := hd.rooted.fs
  have hr : (count : Int) ≠ -1 := by omega
  obtain ⟨idx', f, inode, t, hopen, hwrite, rfl⟩ := sysWrite_eq_ok hrun hr
  obtain ⟨-, hfd', -, rfl, hino, -⟩ := openFile_eq_ok.1 hopen
  rw [hfd] at hfd'
  cases hfd'
  cases hp : s.fs.inodes inode with
  | none => exact absurd (inodeWrite_none hp hwrite).1 hr
  | some i =>
      have hpos := (hd.positioned idx).inside inode i hino hp
      have hsize := hm.dir.inv.size_le hp
      obtain ⟨hinv', i', hframe, ⟨hneg, -⟩ | ⟨hret, hmax, -⟩⟩ := inodeWrite_cases hm.dir.inv hp hwrite
      · exact absurd hneg hr
      have hcount : count < 2 ^ 63 := by
        unfold s64 at hret
        split at hret <;> omega
      have hu : u64 ((s.file_table idx).fd_pos + count) = (s.file_table idx).fd_pos + count :=
        u64_of_lt (by omega)
      have hfit : (s.file_table idx).fd_pos + count ≤ 71680 := by
        rw [hu] at hmax
        exact hmax
      have hat := h.at hd.toOnDisk hino hp
      obtain ⟨j, hj, hjno, htext⟩ := text_inodeWrite hm.dir.inv hm.dir.covered hp hpos hfit hb hwrite
      have hno : i.i_no ≠ 0 := (h.allocated hat.2.1).1
      have hobj : ∀ q, (t.inodes q).map Inode.i_no = (s.fs.inodes q).map Inode.i_no := by
        intro q
        by_cases hqi : q = inode
        · rw [hqi, hj, hp]
          exact congrArg some hjno
        · rw [hframe.changes.inodes_other hqi]
      have hcounts : ∀ q, q ≠ s.fs.root_dir_inode → t.countAt q = s.fs.countAt q := by
        intro q _
        by_cases hqi : q = inode
        · rw [hqi, FS.countAt_some hp, FS.countAt_some hframe.changes.object', hframe.open_cnts]
        · exact FS.countAt_congr (hframe.changes.inodes_other hqi)
      refine ⟨⟨hd', hd.counted.keep rfl rfl hframe.changes.root hcounts⟩, _, ⟨_, _, _, hat, rfl⟩, ?_⟩
      rw [length_firstBytes, (advances_nat (by omega)).1]
      refine h.setFile hno rfl (fun _ q _ _ => hobj q) ?_ (fun k => ?_) ?_ fun k _ hk =>
        .write hm.dir.inv hp hk hwrite
      · rw [← hjno]
        refine Eq.trans (slotOf_store (f := { s.file_table idx with fd_pos := _ }) rfl hino ?_) rfl
        exact hj
      · refine (FS.allocated_congr hframe.changes.inode_bitmap).trans (or_iff_left_of_imp ?_).symm
        rintro rfl
        exact hm.dir.inv.open_allocated _ _ hp
      · rw [← htext, ← hjno]
        exact hasText_object hinv' hd'.stored.indirect hj

/-! ## Seeking -/

omit [DecidableEq P] in
/-- What a `sys_lseek` that returns a position has done. -/
theorem OnDisk.lseek_eq {offset : Int} {whence : Whence} {pos : Nat} (hd : OnDisk part deleted s)
    (hoffset : -2 ^ 63 ≤ offset ∧ offset < 2 ^ 63)
    (hrun : sysLseek p fd offset whence s = .ok ((pos : Int), s')) :
    ∃ idx inode i, s.fd_table p fd = some idx ∧ (s.file_table idx).fd_inode = some inode ∧
      s.fs.inodes inode = some i ∧ i.i_size ≤ 71680 ∧ pos ≤ i.i_size ∧
      (pos : Int) = Store.target (s.file_table idx).fd_pos i.i_size offset whence ∧
      s' = { s with
        file_table := Function.update s.file_table idx { s.file_table idx with fd_pos := pos } } := by
  obtain ⟨m, hm⟩ := hd.rooted.fs
  unfold Kernel.sysLseek at hrun
  split at hrun
  · have hneg : (-1 : Int) = pos := congrArg Prod.fst (Except.ok.inj hrun)
    omega
  · obtain ⟨⟨idx, f, inode⟩, s1, hopen, h1⟩ := Prog.bind_eq_ok.1 hrun
    obtain ⟨-, hfd, -, rfl, hino, rfl⟩ := openFile_eq_ok.1 hopen
    obtain ⟨i, s2, hat, h2⟩ := Prog.bind_eq_ok.1 h1
    obtain ⟨t, hat', rfl⟩ := onFs_eq_ok.1 hat
    obtain ⟨hp, rfl⟩ := inodeAt_eq_ok.1 hat'
    have hsize := hm.dir.inv.size_le hp
    have hpos := (hd.positioned idx).inside inode i hino hp
    -- a sum that wraps around is negative
    have hwrap : ∀ z : Int, -2 ^ 63 ≤ z → z < 2 ^ 63 + 71680 → 0 ≤ s64 (u64OfInt z) →
        s64 (u64OfInt z) ≤ 71680 → s64 (u64OfInt z) = z := by
      unfold s64 u64OfInt
      intro z _ _ h0 h1
      split at h0 <;> omega
    have hcur : u64 ((s1.file_table idx).fd_pos + u64OfInt offset) =
        u64OfInt ((s1.file_table idx).fd_pos + offset) := by
      unfold u64 u64OfInt
      omega
    have hstore : ∀ new_pos : Int,
        (0 ≤ new_pos → new_pos ≤ 71680 →
          new_pos = Store.target (s1.file_table idx).fd_pos i.i_size offset whence) →
        (if new_pos < 0 ∨ new_pos > s64 i.i_size then pure (-1) else do
          setFile idx { s1.file_table idx with fd_pos := u64OfInt new_pos }
          pure new_pos : Prog (Kernel P) Int) { s1 with fs := s1.fs } = .ok ((pos : Int), s') →
        pos ≤ i.i_size ∧
          (pos : Int) = Store.target (s1.file_table idx).fd_pos i.i_size offset whence ∧
          s' = { s1 with
            file_table := Function.update s1.file_table idx { s1.file_table idx with fd_pos := pos } } := by
      intro new_pos htarget hres
      rw [s64_of_lt (by omega)] at hres
      split at hres
      · have hneg : (-1 : Int) = pos := congrArg Prod.fst (Except.ok.inj hres)
        omega
      · next hin =>
        have hpos' : new_pos = (pos : Int) := congrArg Prod.fst (Except.ok.inj hres)
        subst hpos'
        refine ⟨by omega, htarget (by omega) (by omega), ?_⟩
        cases hres
        rw [u64OfInt_natCast (by omega)]
    refine ⟨idx, inode, i, hfd, hino, hp, hsize, hstore _ ?_ h2⟩
    cases whence with
    | SEEK_SET => exact fun _ _ => rfl
    | SEEK_CUR =>
        change 0 ≤ s64 (u64 ((s1.file_table idx).fd_pos + u64OfInt offset)) →
          s64 (u64 ((s1.file_table idx).fd_pos + u64OfInt offset)) ≤ 71680 →
          s64 (u64 ((s1.file_table idx).fd_pos + u64OfInt offset)) = (s1.file_table idx).fd_pos + offset
        rw [hcur]
        exact hwrap _ (by omega) (by omega)
    | SEEK_END =>
        have hsize64 : s64 i.i_size = i.i_size := s64_of_lt (by omega)
        change 0 ≤ s64 (u64OfInt (s64 i.i_size + offset)) → s64 (u64OfInt (s64 i.i_size + offset)) ≤ 71680 →
          s64 (u64OfInt (s64 i.i_size + offset)) = i.i_size + offset
        rw [hsize64]
        exact hwrap _ (by omega) (by omega)

omit [DecidableEq P] in
theorem Stands.lseek {offset : Int} {whence : Whence} {pos : Nat} (h : Stands st s)
    (hd : Intact part deleted s) (hoffset : -2 ^ 63 ≤ offset ∧ offset < 2 ^ 63)
    (hrun : sysLseek p fd offset whence s = .ok ((pos : Int), s')) (hfd : s.fd_table p fd = some idx) :
    Intact part deleted s' ∧ ∃ st', st.Step (.moved idx offset whence pos) st' ∧ Stands st' s' := by
  have hd' := hd.toOnDisk.lseek hrun
  obtain ⟨idx', inode, i, hfd', hino, hp, -, hpos, htarget, hs'⟩ := hd.lseek_eq hoffset hrun
  rw [hfd] at hfd'
  cases hfd'
  obtain ⟨hintact, hstands⟩ := h.move hd hino hp hs' hd'
  refine ⟨hintact, _, ⟨_, _, _, h.at hd.toOnDisk hino hp, ?_, ?_, rfl⟩, hstands⟩
  · rwa [Inode.length_text]
  · rwa [Inode.length_text]

/-! ## Files that come and go -/

theorem Stands.close (h : Stands st s) (hd : Intact part deleted s) (hrun : sysClose p fd s = .ok ((), s'))
    (hfd : s.fd_table p fd = some idx) :
    Intact part deleted s' ∧ ∃ st', st.Step (.closed idx) st' ∧ Stands st' s' := by
  have hd' := hd.toOnDisk.close hrun
  obtain ⟨m, hm⟩ := hd.rooted.fs
  obtain ⟨-, idx', f, inode, t, hopen, hclose, hs'⟩ := sysClose_eq_ok.1 hrun
  obtain ⟨-, hfd', -, rfl, hino, -⟩ := openFile_eq_ok.1 hopen
  rw [hfd] at hfd'
  cases hfd'
  have htable : s'.file_table =
      Function.update s.file_table idx { s.file_table idx with fd_inode := none } := by
    rw [hs']
  have hfs : s'.fs = t := by rw [hs']
  have hcounted := hd.counted.release hino (hfs ▸ taken_of_inodeClose hm.dir.inv.table hclose) htable
  have hbm : t.inode_bitmap = s.fs.inode_bitmap := by
    obtain ⟨-, rfl⟩ | ⟨-, i, -, ⟨-, rfl⟩ | ⟨-, rfl⟩⟩ := inodeClose_eq hclose
    · rfl
    · rfl
    · rfl
  refine ⟨⟨hd', hcounted⟩, _, rfl, h.setSlot htable (fun idx' q hidx hq => ?_) (slotOf_empty ?_) (hfs ▸ hbm)
    fun no => hfs ▸ KeepsText.close hm.dir.inv hclose⟩
  · have hq' : (s'.file_table idx').fd_inode = some q := by
      rw [htable, Function.update_of_ne hidx, hq]
    have hlive := hcounted.pos hq'
    rw [← hcounted.count q (hd'.files idx' q hq'), hfs] at hlive
    rw [hfs]
    obtain ⟨-, rfl⟩ | ⟨-, i, hi, ⟨-, rfl⟩ | ⟨-, rfl⟩⟩ := inodeClose_eq hclose
    · rfl
    · by_cases hqi : q = inode
      · rw [hqi, FS.countAt_none (show (s.fs.dropInode inode).inodes inode = none from Function.update_self ..)]
          at hlive
        exact absurd hlive (Nat.lt_irrefl 0)
      · exact congrArg (Option.map Inode.i_no) (Function.update_of_ne hqi _ _)
    · by_cases hqi : q = inode
      · rw [hqi, hi]
        show (Function.update s.fs.inodes inode (some _) inode).map Inode.i_no = _
        rw [Function.update_self]
        rfl
      · exact congrArg (Option.map Inode.i_no) (Function.update_of_ne hqi _ _)
  · rw [htable, Function.update_self]

/-- What a `file_open` that returns a descriptor has done. -/
theorem fileOpen_eq_ok {flag : Nat} (h : fileOpen p path flag s = .ok (some fd, s')) :
    ∃ idx inode t, getFreeSlotInGlobal s = some idx ∧
      searchFile (s.cwd_i_no p) path false s.fs = .ok (some inode, t) ∧
      s' = { s with
        fs := t
        file_table := Function.update s.file_table idx ⟨0, flag, some inode⟩
        fd_table := Function.update s.fd_table p (Function.update (s.fd_table p) fd (some idx)) } := by
  unfold Kernel.fileOpen at h
  rw [Prog.bind_of_ok (a := s) (t := s) rfl] at h
  obtain ⟨found, s1, hsearch, h1⟩ := Prog.bind_eq_ok.1 h
  obtain ⟨t, hsearch', rfl⟩ := onFs_eq_ok.1 hsearch
  cases found with
  | none => cases h1
  | some inode =>
      cases hslot : getFreeSlotInGlobal s with
      | none =>
          rw [hslot] at h1
          cases h1
      | some idx =>
          rw [hslot] at h1
          obtain ⟨⟨⟩, s2, hset, h2⟩ := Prog.bind_eq_ok.1 h1
          rw [Prog.modify_eq_ok.1 hset] at h2
          obtain ⟨-, -, rfl⟩ := pcbFdInstall_eq_some h2
          exact ⟨idx, inode, t, rfl, hsearch', rfl⟩

theorem Stands.open {flag : Nat} (h : Stands st s) (hd : Intact part deleted s)
    (hrun : fileOpen p path flag s = .ok (some fd, s')) (hfd : s'.fd_table p fd = some idx)
    (hres : s.fs.resolve 0 path = some no) (hno : no ≠ 0) :
    Intact part deleted s' ∧ ∃ st', st.Step (.opened idx no) st' ∧ Stands st' s' := by
  obtain ⟨m, hm⟩ := hd.rooted.fs
  obtain ⟨idx', inode, t, hslot, hsearch, hs'⟩ := fileOpen_eq_ok hrun
  have hidx : idx' = idx := by
    rw [hs'] at hfd
    simpa only [Function.update_self, Option.some.injEq] using hfd
  subst hidx
  have hg := searchFile_grows _ _ _ _ _ _ hsearch
  rw [hd.rooted.cwd] at hsearch
  obtain ⟨-, -, hstop⟩ | ⟨r, u, hfound, hrun'⟩ := hm.searchFile path
  · rw [hstop] at hsearch
    cases hsearch
  rw [hrun'] at hsearch
  cases hsearch
  rw [hres] at hfound
  have ht := hfound.rootDir hm
  have hfound' := hfound
  cases hfound with
  | root => exact absurd rfl hno
  | file ho =>
      obtain ⟨hroot, hothers⟩ := ho.others hm
      obtain ⟨j, hj, hjno, -⟩ := ho.object hm
      obtain ⟨x, hv, hone, -⟩ := ho.openedOne hm
      have hdisk : t.disk = s.fs.disk := hone.disk.trans hv.disk
      have hsb : t.sb = s.fs.sb := hone.sb.trans hv.sb
      have hbm : t.inode_bitmap = s.fs.inode_bitmap := hone.inode_bitmap.trans hv.inode_bitmap
      have htable : s'.file_table = Function.update s.file_table idx' ⟨0, flag, some inode⟩ := by rw [hs']
      have hfs : s'.fs = t := by rw [hs']
      subst hfs
      have hdisk' : OnDisk part deleted s' := by
        refine ⟨hd.rooted.congr (by rw [hs']) ⟨m, ht⟩,
          hd.positioned.store hg htable (.start (ht.dir.inv.table.fresh _ _ hj) flag),
          fun idx inode' hino => ?_, hd.stored.found hm hfound', hd.bits.congr (fun no _ => ?_) hbm⟩
        · rw [htable] at hino
          by_cases hidx : idx = idx'
          · rw [hidx, Function.update_self] at hino
            cases hino
            exact ho.ne_root hm
          · rw [Function.update_of_ne hidx] at hino
            rw [hroot]
            exact hd.files idx inode' hino
        · exact congrFun (FS.storedBit_congr hsb hdisk) no
      refine ⟨⟨hdisk', hd.counted.install (ho.taken hm) hslot htable⟩, _,
        ⟨fun hnone => (h.none_iff no hno).1 hnone ho.allocated, rfl⟩,
        h.setSlot htable (fun idx q _ hq => ?_) (slotOf_store htable rfl hj |>.trans (by rw [hjno])) hbm
          fun no => .found hm hfound'⟩
      by_cases hqi : q = inode
      · -- a slot that refers to the inode already
        have hwas := hone.was
        rw [hv.inodes_other (hqi ▸ hd.files idx q hq)] at hwas
        obtain hnone | ⟨i, hi, hino⟩ := hwas
        · have hlive := hd.counted.pos hq
          rw [← hd.counted.count q (hd.files idx q hq), hqi, FS.countAt_none hnone] at hlive
          exact absurd hlive (Nat.lt_irrefl 0)
        · rw [hqi, hj, hi]
          exact congrArg some (hjno.trans hino.symm)
      · rw [hothers q hqi (hd.files idx q hq)]

theorem Stands.create {flag : Nat} (h : Stands st s) (hd : Intact part deleted s)
    (hrun : fileCreate p path flag s = .ok (some fd, s')) (hfd : s'.fd_table p fd = some idx)
    (hno : s'.SlotNo idx no) :
    Intact part false s' ∧ ∃ st', st.Step (.created idx no) st' ∧ Stands st' s' := by
  obtain ⟨m, hm⟩ := hd.rooted.fs
  have hd' := hd.toOnDisk.create hrun
  obtain ⟨m', hm'⟩ := hd'.rooted.fs
  obtain ⟨idx', inode, t, hslot, hcreate, -, -, hs'⟩ := fileCreate_eq_ok hrun
  have hidx : idx' = idx := by
    rw [hs'] at hfd
    simpa only [Function.update_self, Option.some.injEq] using hfd
  subst hidx
  rw [hd.rooted.cwd] at hcreate
  have htable : s'.file_table = Function.update s.file_table idx' ⟨0, flag, some inode⟩ := by rw [hs']
  have hfs : s'.fs = t := by rw [hs']
  subst hfs
  obtain ⟨k, hk, hfresh, hobj, hall, hkeep⟩ := KeepsText.createFile hm hcreate
  have hnk : no = k := by
    obtain ⟨inode', i, hino, hi, hino'⟩ := hno
    rw [htable, Function.update_self] at hino
    cases hino
    rw [hobj] at hi
    cases hi
    exact hino'.symm
  subst hnk
  obtain ⟨-, hstop⟩ | ⟨u, hnone, -⟩ | ⟨k, u, hsome, hc⟩ := hm.create path
  · rw [hstop] at hcreate
    cases hcreate
  · rw [hnone] at hcreate
    cases hcreate
  rw [hsome] at hcreate
  cases hcreate
  have hempty : (newInode no FT_REGULAR).text s'.fs.disk = [] := rfl
  refine ⟨⟨hd', hd.counted.install hc.taken hslot htable⟩, _, ⟨?_, rfl⟩,
    h.setFile hk htable (fun idx q _ hq => ?_) (slotOf_store htable rfl hobj) hall ?_
      fun k hk0 _ => hkeep k hk0⟩
  · exact (h.none_iff no hk).2 hfresh
  · have hne : q ≠ s.fs.next := fun heq => by
      have hlt := (hd.positioned idx).fresh q hq
      omega
    rw [hc.others q hne (hd.files idx q hq)]
  · rw [← hempty]
    exact hasText_object hm'.dir.inv hd'.stored.indirect hobj

omit [DecidableEq P] in
/-- What is not open has no object. -/
theorem ne_of_openCount {fs : FS} (ht : fs.OpenTable) (hzero : fs.openCount no = 0)
    (hi : fs.inodes inode = some i) : i.i_no ≠ no := by
  intro hno
  unfold FS.openCount at hzero
  rw [(objectOf_eq_some ht).2 ⟨inode, hi, hno⟩] at hzero
  have hpos := ht.counted inode i hi
  exact absurd hzero (Nat.ne_of_gt hpos)

omit [DecidableEq P] in
/-- No slot refers to the inode of a closed file that was opened to be deleted. -/
theorem Intact.no_slot {m : Nat} {t : FS} (hd : Intact part deleted s) (hm : RootDir s.fs m)
    (ho : Opened s.fs no inode t) (hzero : s.fs.openCount no = 0) (idx : Nat) :
    (s.file_table idx).fd_inode ≠ some inode := by
  intro hino
  have hne := hd.files idx inode hino
  obtain ⟨x, hv, hone, -⟩ := ho.openedOne hm
  have hwas := hone.was
  rw [hv.inodes_other hne] at hwas
  obtain hnone | ⟨i, hi, hino'⟩ := hwas
  · have hlive := hd.counted.pos hino
    rw [← hd.counted.count inode hne, FS.countAt_none hnone] at hlive
    exact absurd hlive (Nat.lt_irrefl 0)
  · exact ne_of_openCount hm.dir.inv.table hzero hi hino'

omit [DecidableEq P] in
/-- What a `sys_unlink` that returns 0 has done. -/
theorem Intact.unlink_eq {m : Nat} {mapped : Bool} (hd : Intact part deleted s) (hm : RootDir s.fs m)
    (hrun : sysUnlink mapped p path s = .ok (0, s')) (hno : s.fs.lastNo 0 path = some no) :
    no ≠ 0 ∧ s.fs.openCount no = 0 ∧ s.fs.allocated no ∧ s'.file_table = s.file_table ∧
      s'.fs.inode_bitmap = bitmapSet s.fs.inode_bitmap no false ∧
      s'.fs.root_dir_inode = s.fs.root_dir_inode ∧
      (∀ q, q ≠ s.fs.root_dir_inode → (∀ idx, (s.file_table idx).fd_inode ≠ some q) ∨
        s'.fs.inodes q = s.fs.inodes q) ∧
      (∀ q, q ≠ s.fs.root_dir_inode → s'.fs.countAt q = s.fs.countAt q) ∧
      ∀ k, k ≠ 0 → k ≠ no → KeepsText s.fs s'.fs k := by
  unfold Kernel.sysUnlink at hrun
  obtain ⟨-, -, hlook⟩ | ⟨-, t, -, hlook⟩ | ⟨no1, q, u, r, t, hres, hfound, hlast, hlook⟩ :=
    hd.rooted.unlinkLookUp p path
  · rw [Prog.bind_of_error hlook] at hrun
    cases hrun
  · rw [Prog.bind_of_ok hlook] at hrun
    cases hrun
  rw [Prog.bind_of_ok hlook] at hrun
  rw [hno] at hlast
  cases r with
  | none => cases hrun
  | some inode =>
      obtain ⟨⟨⟩, s1, hdelete, h1⟩ := Prog.bind_eq_ok.1 hrun
      obtain ⟨v, hdelete', rfl⟩ := onFs_eq_ok.1 hdelete
      cases h1
      have ht := hlast.rootDir hm
      obtain ⟨hne, hzero, w, -, hroot, hobj, -, hrun2⟩ | ⟨-, hstop⟩ := hm.delete hno hlast
      · have hw : v = w := by
          have heq := hdelete'.symm.trans (hrun2 mapped)
          cases mapped with
          | false => cases heq
          | true => exact congrArg Prod.snd (Except.ok.inj heq)
        subst hw
        have hlast' := hlast
        cases hlast with
        | root => exact absurd rfl hne
        | file ho =>
            obtain ⟨j, hj, hjno, hcnt⟩ := ho.object hm
            obtain ⟨x, hv, hone, -⟩ := ho.openedOne hm
            obtain ⟨hothers, hsame⟩ := ho.others hm
            obtain ⟨hname, hlen⟩ := hm.lastNo_some hno
            rw [hzero] at hcnt
            rw [← ho.lookNo hm, ← hjno] at hname
            rw [← hothers] at hdelete'
            obtain ⟨-, -, hbm⟩ :=
              (hd.stored.found hm hlast').deleteFound ht hj (ho.ne_root hm) hcnt hlen hname hdelete'
            have hno_slot := hd.no_slot hm ho hzero
            refine ⟨hne, hzero, ho.allocated, funext fun idx => ?_, ?_, hroot, fun q' hq' => ?_,
              fun q' hq' => ?_, fun k hk hkn => (KeepsText.found hm hlast').trans
                (.deleteFound ht hj (ho.ne_root hm) hcnt hlen hname hdelete' hk (hjno ▸ hkn))⟩
            · show clearSlots s.file_table q idx = _
              unfold clearSlots
              refine if_neg fun hcond => ?_
              -- the file that was looked up first is the root directory or the one that is deleted
              by_cases h0 : no1 = 0
              · subst h0
                cases hfound with
                | root => exact hd.files idx _ hcond.2 rfl
                | file ho' => exact ho'.ne_zero rfl
              · have hsome := hm.lastNo_of_resolve hres h0
                rw [hno] at hsome
                cases hsome
                cases hfound with
                | root => exact h0 rfl
                | file ho' => exact hd.no_slot hm ho' hzero idx hcond.2
            · show v.inode_bitmap = _
              rw [hbm, hjno, hone.inode_bitmap, hv.inode_bitmap]
            · by_cases hqi : q' = inode
              · exact .inl (hqi ▸ hno_slot)
              · refine .inr ((hobj q' hq').trans ?_)
                rw [Function.update_of_ne hqi, hsame q' hqi hq']
            · by_cases hqi : q' = inode
              · have hnone : v.inodes q' = none := by rw [hobj q' hq', hqi, Function.update_self]
                have hgone : s.slotRefs q' = 0 := by
                  refine Nat.eq_zero_of_not_pos fun hpos => ?_
                  obtain ⟨idx, -, hidx⟩ := exists_of_countTo_pos hpos
                  exact hno_slot idx (hqi ▸ hidx)
                rw [hd.counted.count q' hq', hgone]
                exact FS.countAt_none hnone
              · refine FS.countAt_congr ((hobj q' hq').trans ?_)
                rw [Function.update_of_ne hqi, hsame q' hqi hq']
      · have hpanic := hdelete'.symm.trans (hstop mapped)
        cases hpanic

omit [DecidableEq P] in
theorem Stands.unlink {mapped : Bool} (h : Stands st s) (hd : Intact part deleted s)
    (hrun : sysUnlink mapped p path s = .ok (0, s')) (hno : s.fs.lastNo 0 path = some no) :
    Intact part true s' ∧ ∃ st', st.Step (.removed no) st' ∧ Stands st' s' := by
  have hd' := hd.toOnDisk.unlink hrun
  obtain ⟨m, hm⟩ := hd.rooted.fs
  obtain ⟨hne, hzero, ha, htable, hbm, hroot, hobj, hcount, hkeep⟩ := hd.unlink_eq hm hrun hno
  have hstill : s'.file_table = Function.update s.file_table 0 (s.file_table 0) := by
    rw [htable, Function.update_eq_self]
  have hall : ∀ k, s'.fs.allocated k ↔ s.fs.allocated k ∧ k ≠ no := by
    intro k
    unfold FS.allocated
    rw [hbm, bitmapRead_bitmapSet]
    by_cases hk : k = no
    · rw [if_pos hk]
      exact ⟨fun h => absurd h.2 Bool.false_ne_true, fun h => absurd hk h.2⟩
    · rw [if_neg hk]
      exact ⟨fun h => ⟨h, hk⟩, fun h => h.1⟩
  refine ⟨⟨hd', hd.counted.keep hstill rfl hroot hcount⟩, _,
    ⟨fun hnone => (h.none_iff no hne).1 hnone ha, fun idx pos hslot => ?_, rfl⟩, ?_⟩
  · rw [h.slots] at hslot
    obtain ⟨inode, i, -, hi, hino⟩ := slotOf_some hslot
    exact ne_of_openCount hm.dir.inv.table hzero hi hino
  refine ⟨(Function.update_of_ne hne.symm _ _).trans h.root, fun k hk => ?_, fun k text hk => ?_, fun idx => ?_⟩
  · show Function.update st.files no none k = none ↔ _
    rw [hall]
    by_cases hkn : k = no
    · rw [hkn, Function.update_self]
      exact ⟨fun _ h => h.2 rfl, fun _ => rfl⟩
    · rw [Function.update_of_ne hkn, h.none_iff k hk]
      exact not_congr (and_iff_left hkn).symm
  · have hk' : Function.update st.files no none k = some text := hk
    by_cases hkn : k = no
    · rw [hkn, Function.update_self] at hk'
      cases hk'
    · rw [Function.update_of_ne hkn] at hk'
      exact (h.text k text hk').keep (hkeep k (h.allocated hk').1 hkn)
  · refine (h.slots idx).trans (slotOf_congr (congrFun htable idx) fun q hq => ?_).symm
    obtain hnot | hsame := hobj q (hd.files idx q hq)
    · exact absurd hq (hnot idx)
    · rw [hsame]

/-! ## Runs -/

/-- The deleted file of `OnDisk` after a call. -/
def deletedBy (deleted : Bool) : Store.Event → Bool
  | .created .. => false
  | .removed .. => true
  | _ => deleted

theorem Stands.step {e : Store.Event} (h : Stands st s) (hd : Intact part deleted s) (hstep : Does s e s') :
    Intact part (deletedBy deleted e) s' ∧ ∃ st', st.Step e st' ∧ Stands st' s' := by
  cases hstep with
  | create hrun hfd hno => exact h.create hd hrun hfd hno
  | «open» hrun hfd hres hno => exact h.open hd hrun hfd hres hno
  | read hcount hrun hfd => exact h.read hd hcount hrun hfd
  | write hrun hfd hb => exact h.write hd hrun hfd hb
  | lseek hoffset hrun hfd => exact h.lseek hd hoffset hrun hfd
  | close hrun hfd => exact h.close hd hrun hfd
  | unlink hrun hno => exact h.unlink hd hrun hno

omit [DecidableEq P] in
theorem Booted.stands {disk : Buf} (h : Booted s) (hmount : filesysInit part (FS.boot disk) = .ok ((), s.fs)) :
    Intact part false s ∧ Stands Store.empty s := by
  obtain ⟨t, hm, -, hinodes, -, hfs⟩ := filesysInit_eq hmount
  have hzero : ∀ no, s.fs.allocated no ↔ no = 0 := by
    rw [hfs]
    exact hm.allocated_iff
  refine ⟨⟨h.onDisk hmount, fun idx inode hino => ?_, fun q hq => ?_⟩,
    rfl, fun no hno => ?_, fun no text hno => ?_, fun idx => (slotOf_empty (h.file_table idx)).symm⟩
  · rw [h.file_table] at hino
    cases hino
  · have hrefs : s.slotRefs q = 0 := by
      refine Nat.eq_zero_of_not_pos fun hpos => ?_
      obtain ⟨idx, -, hidx⟩ := exists_of_countTo_pos hpos
      rw [h.file_table] at hidx
      cases hidx
    rw [hrefs]
    refine FS.countAt_none ?_
    rw [hfs] at hq ⊢
    exact (Function.update_of_ne hq _ _).trans (congrFun hinodes q)
  · exact ⟨fun _ ha => hno ((hzero no).1 ha), fun _ => rfl⟩
  · cases hno

/-- The descriptor of a new file leads to it. -/
theorem Rooted.created_slot {flag : Nat} (h : Rooted s)
    (hrun : Kernel.fileCreate p path flag s = .ok (some fd, s')) : ∃ idx no, s'.fd_table p fd = some idx ∧ s'.SlotNo idx no := by
  obtain ⟨m, hm⟩ := h.fs
  obtain ⟨idx, inode, t, -, hcreate, -, -, rfl⟩ := fileCreate_eq_ok hrun
  rw [h.cwd] at hcreate
  obtain ⟨k, -, -, hobj, -⟩ := KeepsText.createFile hm hcreate
  refine ⟨idx, k, ?_, inode, newInode k FT_REGULAR, ?_, hobj, rfl⟩
  · exact (congrFun (Function.update_self p _ s.fd_table) fd).trans (Function.update_self ..)
  · exact congrArg File.fd_inode (Function.update_self idx _ s.file_table)

end Calls

end Kernel

end RecoverOS
