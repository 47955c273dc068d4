import RecoverOS.Fs.Inode

set_option autoImplicit false

/-! # Inodes byte for byte (`fs/inode.c`, `fs/inode.h`)

`inode_sync` and `inode_open` over the 160 bytes of a `struct inode`, with the lock and the links of
`open_inodes` that the rest of the development leaves out. -/

namespace RecoverOS

namespace Codec

/-! ## `struct inode` -/

/-- `i_no`. -/
def iNo (b : Buf) : Nat := b.getLE 0 8

/-- `i_size`. -/
def iSize (b : Buf) : Nat := b.getLE 8 8

/-- `i_open_cnts`. -/
def iOpenCnts (b : Buf) : Nat := b.getLE 16 8

/-- `f_type`; four bytes of padding follow it. -/
def fType (b : Buf) : Nat := b.getLE 24 4

/-- `i_sectors[k]`. -/
def iSectors (b : Buf) (k : Nat) : Nat := b.getLE (88 + 4 * k) 4

/-- The offset of `inode_tag`: `prev` and `next`. -/
abbrev inodeTag : Nat := 144

/-- `lock_init(&inode->inode_lock)` for the `struct inode` at `p`: `holder`, `holder_repeat_nr`, and
    `sema_init` with the `list_init` of `waiters`, whose `head` is at 48 and whose `tail` is at 64. -/
def lockInit (p : Nat) (b : Buf) : Buf :=
  b.putLE 32 8 0 |>.putLE 80 8 0 |>.putLE 40 1 1
    |>.putLE 48 8 0 |>.putLE 56 8 (p + 64) |>.putLE 64 8 (p + 48) |>.putLE 72 8 0

/-- The lock of the `struct inode` at `p` is free and nobody waits for it. -/
structure FreshLock (p : Nat) (b : Buf) : Prop where
  holder : b.getLE 32 8 = 0
  holder_repeat_nr : b.getLE 80 8 = 0
  value : b.getLE 40 1 = 1
  head_prev : b.getLE 48 8 = 0
  head_next : b.getLE 56 8 = (p + 64) % 256 ^ 8
  tail_prev : b.getLE 64 8 = (p + 48) % 256 ^ 8
  tail_next : b.getLE 72 8 = 0

/-- The two have the same number, size, type and blocks. -/
structure SameFile (b c : Buf) : Prop where
  no : iNo b = iNo c
  size : iSize b = iSize c
  type : fType b = fType c
  sectors : ∀ k < NDIRECT + 1, iSectors b k = iSectors c k

/-! ## The partition -/

/-- The partition and the `struct inode` objects, by address. `list_head` is the address of
    `part->open_inodes`, whose list is given by the objects in it. -/
structure Part where
  disk : Buf
  inode_table_lba : Nat
  list_head : Nat
  open_inodes : List Nat
  inodes : Nat → Option Buf
  /-- The address the kernel heap hands out next. -/
  next : Nat

/-- The list holds objects, and the heap hands out memory that is not in use. -/
structure Part.Ok (s : Part) : Prop where
  objects : ∀ p ∈ s.open_inodes, ∃ b, s.inodes p = some b
  fresh : ∀ p, s.next ≤ p → s.inodes p = none

/-- The bytes of the object at a pointer. -/
def inodeAt (p : Nat) : Prog Part Buf := do
  let s ← Prog.get
  Prog.ofOption (s.inodes p)

/-- Store an object. -/
def setInode (p : Nat) (b : Buf) : Prog Part Unit :=
  Prog.modify fun s => { s with inodes := Function.update s.inodes p (some b) }

/-- `inode_locate`; the `lba` of `struct inode_position` is a `uint32_t`. -/
def inodeLocate (inode_no : Nat) : Prog Part InodePosition := do
  Prog.assert (inode_no < MAX_FILES_PER_PART)
  let s ← Prog.get
  let off_size := inode_no * sizeofInode
  pure ⟨(s.inode_table_lba + off_size / SECTOR_SIZE) % 2 ^ 32, off_size % SECTOR_SIZE⟩

/-- `ide_read` to the start of a new buffer. -/
def ideRead (lba sec_cnt : Nat) : Prog Part Buf :=
  Prog.gets fun s => Buf.zero.patch 0 (SECTOR_SIZE * sec_cnt) (s.disk.from (SECTOR_SIZE * lba))

/-- `ide_write`. -/
def ideWrite (lba : Nat) (buf : Buf) (sec_cnt : Nat) : Prog Part Unit :=
  Prog.modify fun s => { s with disk := s.disk.patch (SECTOR_SIZE * lba) (SECTOR_SIZE * sec_cnt) buf }

/-- `inode_sync`. -/
def inodeSync (inode : Nat) : Prog Part Unit := do
  let pure_inode ← inodeAt inode
  let inode_pos ← inodeLocate (iNo pure_inode)
  let io_buf ← ideRead inode_pos.lba 2
  ideWrite inode_pos.lba (io_buf.patch inode_pos.off_size sizeofInode pure_inode) 2

/-- `list_traversal(&part->open_inodes, find_inode, &inode_no)`. -/
def Part.findInode (s : Part) (inode_no : Nat) : Option Nat :=
  s.open_inodes.find? fun p =>
    match s.inodes p with
    | some b => iNo b == inode_no
    | none => false

/-- `list_push(&part->open_inodes, &inode->inode_tag)`: the links of the new element and the link back of the
    one that was first; if there was none, that is the `tail` of the list, behind its `head`. -/
def listPush (inode : Nat) : Prog Part Unit := do
  let s ← Prog.get
  let b ← inodeAt inode
  match s.open_inodes with
  | [] => setInode inode ((b.putLE inodeTag 8 s.list_head).putLE (inodeTag + 8) 8 (s.list_head + 16))
  | before :: _ => do
      setInode inode ((b.putLE inodeTag 8 s.list_head).putLE (inodeTag + 8) 8 (before + inodeTag))
      let c ← inodeAt before
      setInode before (c.putLE inodeTag 8 (inode + inodeTag))
  Prog.modify fun s => { s with open_inodes := inode :: s.open_inodes }

/-- `kernel_alloc(sizeof(struct inode))`: an address, with whatever its memory holds. -/
def kernelAlloc (garbage : Buf) : Prog Part Nat := do
  let s ← Prog.get
  Prog.modify fun s => { s with
    next := s.next + sizeofInode
    inodes := Function.update s.inodes s.next (some garbage) }
  pure s.next

/-- `inode_open`, on a heap whose new memory holds `garbage`. -/
def inodeOpen (garbage : Buf) (inode_no : Nat) : Prog Part Nat := do
  let inode_elem ← Prog.gets fun s => s.findInode inode_no
  match inode_elem with
  | some inode_found => do
      let b ← inodeAt inode_found
      setInode inode_found (b.putLE 16 8 (iOpenCnts b + 1))
      pure inode_found
  | none => do
      let inode_pos ← inodeLocate inode_no
      let inode_found ← kernelAlloc garbage
      let inode_buf ← ideRead inode_pos.lba 2
      let b ← inodeAt inode_found
      setInode inode_found (b.patch 0 sizeofInode (inode_buf.from inode_pos.off_size))
      listPush inode_found
      let b ← inodeAt inode_found
      setInode inode_found ((lockInit inode_found b).putLE 16 8 1)
      pure inode_found

/-! ## Records -/

/-- Where a record starts on the disk, in bytes. -/
def recordAt (inode_table_lba no : Nat) : Nat :=
  SECTOR_SIZE * ((inode_table_lba + no * sizeofInode / SECTOR_SIZE) % 2 ^ 32)
    + no * sizeofInode % SECTOR_SIZE

namespace Part

variable {s : Part}

/-- Where the record of an inode starts on the disk. -/
def recordAddr (s : Part) (no : Nat) : Nat := recordAt s.inode_table_lba no

/-- Sector `k` holds bytes of the record of an inode. -/
def Occupies (s : Part) (no k : Nat) : Prop :=
  s.recordAddr no < SECTOR_SIZE * (k + 1) ∧ SECTOR_SIZE * k < s.recordAddr no + sizeofInode

/-- The object `b` stored in its record. -/
def storeRecord (s : Part) (b : Buf) : Part :=
  { s with disk := s.disk.patch (s.recordAddr (iNo b)) sizeofInode b }

/-- Two records have no byte in common. -/
theorem recordAddr_apart {i j : Nat} (hi : i < 4096) (hj : j < 4096) (hne : i ≠ j) :
    s.recordAddr i + 160 ≤ s.recordAddr j ∨ s.recordAddr j + 160 ≤ s.recordAddr i := by
  unfold recordAddr recordAt
  simp only [SECTOR_SIZE, sizeofInode]
  have hsector : ∀ x, x < 2 ^ 32 → (s.inode_table_lba + x) % 2 ^ 32 = s.inode_table_lba % 2 ^ 32 + x ∨
      (s.inode_table_lba + x) % 2 ^ 32 + 2 ^ 32 = s.inode_table_lba % 2 ^ 32 + x := by
    intro x hx
    omega
  have hfirst : s.inode_table_lba % 2 ^ 32 < 2 ^ 32 := Nat.mod_lt _ (by decide)
  have hqi := hsector (i * 160 / 512) (by omega)
  have hqj := hsector (j * 160 / 512) (by omega)
  generalize s.inode_table_lba % 2 ^ 32 = base at *
  generalize (s.inode_table_lba + i * 160 / 512) % 2 ^ 32 = si at *
  generalize (s.inode_table_lba + j * 160 / 512) % 2 ^ 32 = sj at *
  omega

theorem recordAddr_disk (d : Buf) (no : Nat) :
    { s with disk := d }.recordAddr no = s.recordAddr no := by
  simp only [recordAddr]

theorem recordAddr_storeRecord (b : Buf) (no : Nat) :
    (s.storeRecord b).recordAddr no = s.recordAddr no :=
  recordAddr_disk _ no

/-- Only the sectors that a record occupies change when it is stored. -/
theorem storeRecord_sector {b : Buf} {k : Nat} (hk : ¬ s.Occupies (iNo b) k) :
    Buf.Agree (s.storeRecord b).disk s.disk (SECTOR_SIZE * k) SECTOR_SIZE := by
  refine Buf.patch_agree _ _ ?_
  unfold Occupies at hk
  simp only [SECTOR_SIZE, sizeofInode] at hk ⊢
  omega

/-- The record of another inode stays what it was. -/
theorem storeRecord_other {b : Buf} {j : Nat} (hb : iNo b < 4096) (hj : j < 4096) (hne : iNo b ≠ j)
    {k : Nat} (hk : k < 160) :
    (s.storeRecord b).disk (s.recordAddr j + k) = s.disk (s.recordAddr j + k) := by
  have hapart := recordAddr_apart (s := s) hb hj hne
  exact Buf.patch_outside _ _ (by simp only [sizeofInode]; omega)

end Part

theorem run_inodeLocate {s : Part} {no : Nat} (hno : no < 4096) :
    inodeLocate no s = .ok (⟨(s.inode_table_lba + no * sizeofInode / SECTOR_SIZE) % 2 ^ 32,
      no * sizeofInode % SECTOR_SIZE⟩, s) := by
  unfold inodeLocate
  rw [Prog.run_assert_bind (c := no < MAX_FILES_PER_PART) hno]
  rfl

theorem run_inodeAt {s : Part} {p : Nat} {b : Buf} (hp : s.inodes p = some b) :
    inodeAt p s = .ok (b, s) := by
  change Prog.ofOption (s.inodes p) s = _
  rw [hp]
  rfl

/-- `inode_sync` stores the object in its record, also where the record lies in two sectors. -/
theorem run_inodeSync {s : Part} {q : Nat} {b : Buf} (hq : s.inodes q = some b) (hb : iNo b < 4096) :
    inodeSync q s = .ok ((), s.storeRecord b) := by
  unfold inodeSync
  rw [Prog.bind_of_ok (run_inodeAt hq), Prog.bind_of_ok (run_inodeLocate hb)]
  refine congrArg (fun d => Except.ok ((), { s with disk := d })) ?_
  have hrecord : iNo b * sizeofInode % SECTOR_SIZE + sizeofInode ≤ SECTOR_SIZE * 2 := by
    simp only [SECTOR_SIZE, sizeofInode]
    omega
  rw [Buf.patch_congr _ _ _ (fun k hk => Buf.patch_congr_at (Buf.patch_start _ _ _ hk) _ _ _),
    Buf.patch_patch_from _ _ hrecord]
  rfl

/-! ## Loading -/

/-- What `inode_open` does with the new object, whose bytes have been loaded. -/
def setUp (inode_found : Nat) (b : Buf) : Prog Part Nat := do
  setInode inode_found b
  listPush inode_found
  let b ← inodeAt inode_found
  setInode inode_found ((lockInit inode_found b).putLE 16 8 1)
  pure inode_found

namespace Part

variable {s : Part}

/-- The bytes that are loaded from the record of an inode. -/
def loaded (s : Part) (garbage : Buf) (no : Nat) : Buf :=
  garbage.patch 0 sizeofInode (s.disk.from (s.recordAddr no))

/-- An object behind whose links the list goes on. -/
def linked (s : Part) (b : Buf) : Buf :=
  (b.putLE inodeTag 8 s.list_head).putLE (inodeTag + 8) 8
    (match s.open_inodes with
    | [] => s.list_head + 16
    | before :: _ => before + inodeTag)

/-- The state after `kernel_alloc`. -/
def allocated (s : Part) (garbage : Buf) : Part :=
  { s with
    next := s.next + sizeofInode
    inodes := Function.update s.inodes s.next (some garbage) }

theorem Ok.disk (h : s.Ok) (d : Buf) : { s with disk := d }.Ok := ⟨h.objects, h.fresh⟩

/-- The new object is in no list. -/
theorem Ok.next_notMem (h : s.Ok) : s.next ∉ s.open_inodes := by
  intro hmem
  obtain ⟨b, hb⟩ := h.objects s.next hmem
  rw [h.fresh s.next (Nat.le_refl _)] at hb
  cases hb

end Part

/-- `list_push` links the object it is given, and nothing else of it changes. -/
theorem run_listPush {s : Part} {p : Nat} {b : Buf} (hp : s.inodes p = some b) (hnew : p ∉ s.open_inodes)
    (hlist : ∀ x ∈ s.open_inodes, ∃ c, s.inodes x = some c) :
    ∃ t, listPush p s = .ok ((), t) ∧ t.inodes p = some (s.linked b) := by
  unfold listPush Part.linked
  rw [Prog.bind_of_ok (a := s) (t := s) rfl, Prog.bind_of_ok (run_inodeAt hp)]
  cases hopen : s.open_inodes with
  | nil => exact ⟨_, rfl, Function.update_self _ _ _⟩
  | cons before rest =>
      have hne : p ≠ before := fun h => hnew (by rw [h, hopen]; exact List.mem_cons_self)
      obtain ⟨c, hc⟩ := hlist before (by rw [hopen]; exact List.mem_cons_self)
      let linked : Buf := (b.putLE inodeTag 8 s.list_head).putLE (inodeTag + 8) 8 (before + inodeTag)
      let s1 : Part := { s with inodes := Function.update s.inodes p (some linked) }
      let s2 : Part := { s with
        inodes := Function.update s1.inodes before (some (c.putLE inodeTag 8 (p + inodeTag))) }
      have hbefore : s1.inodes before = some c := by
        change Function.update _ _ _ _ = _
        rw [Function.update_of_ne (Ne.symm hne), hc]
      refine ⟨{ s2 with open_inodes := p :: s2.open_inodes }, ?_, ?_⟩
      · dsimp only
        rw [Prog.bind_of_ok (a := ()) (t := s1) rfl, Prog.bind_of_ok (run_inodeAt hbefore),
          Prog.bind_of_ok (a := ()) (t := s2) rfl]
        rfl
      · change Function.update _ before _ p = _
        rw [Function.update_of_ne hne]
        exact Function.update_self _ _ _

/-- The new object after `inode_open`. -/
theorem run_setUp {s : Part} {p : Nat} {b : Buf} (hnew : p ∉ s.open_inodes)
    (hlist : ∀ x ∈ s.open_inodes, ∃ c, s.inodes x = some c) :
    ∃ t, setUp p b s = .ok (p, t) ∧
      t.inodes p = some ((lockInit p (s.linked b)).putLE 16 8 1) := by
  let s0 : Part := { s with inodes := Function.update s.inodes p (some b) }
  have hlist0 : ∀ x ∈ s0.open_inodes, ∃ c, s0.inodes x = some c := by
    intro x hx
    have hne : x ≠ p := fun h => hnew (h ▸ hx)
    obtain ⟨c, hc⟩ := hlist x hx
    exact ⟨c, by change Function.update _ _ _ _ = _; rw [Function.update_of_ne hne, hc]⟩
  obtain ⟨t, hpush, hobj⟩ := run_listPush (s := s0) (Function.update_self _ _ _) hnew hlist0
  unfold setUp
  rw [Prog.bind_of_ok (a := ()) (t := s0) rfl, Prog.bind_of_ok hpush, Prog.bind_of_ok (run_inodeAt hobj)]
  exact ⟨_, rfl, Function.update_self _ _ _⟩

/-- An inode that is not open is loaded from its record, also where the record lies in two sectors. -/
theorem inodeOpen_new {s : Part} {no : Nat} (garbage : Buf) (h : s.findInode no = none)
    (hno : no < 4096) :
    inodeOpen garbage no s = setUp s.next (s.loaded garbage no) (s.allocated garbage) := by
  unfold inodeOpen
  simp only [Prog.run_gets_bind, h]
  rw [Prog.bind_of_ok (run_inodeLocate hno),
    Prog.bind_of_ok (a := s.next) (t := s.allocated garbage) rfl, Prog.bind_of_ok (a := _) rfl,
    Prog.bind_of_ok (run_inodeAt (s := s.allocated garbage) (Function.update_self _ _ _))]
  refine congrArg (fun b => setUp s.next b (s.allocated garbage)) (Buf.patch_congr _ _ _ fun k hk => ?_)
  have hrecord : no * sizeofInode % SECTOR_SIZE + k < SECTOR_SIZE * 2 := by
    simp only [SECTOR_SIZE, sizeofInode] at hk ⊢
    omega
  rw [Buf.from_apply]
  refine (Buf.patch_start _ _ _ hrecord).trans ?_
  unfold Part.recordAddr recordAt
  simp only [Buf.from_apply, Nat.add_assoc]
  rfl

/-- The pointer and the object that `inode_open` makes. -/
theorem Part.Ok.run_open {s : Part} (hs : s.Ok) {no : Nat} (garbage : Buf)
    (h : s.findInode no = none) (hno : no < 4096) :
    ∃ t, inodeOpen garbage no s = .ok (s.next, t) ∧ t.inodes s.next
      = some ((lockInit s.next ((s.allocated garbage).linked (s.loaded garbage no))).putLE 16 8 1) := by
  rw [inodeOpen_new garbage h hno]
  refine run_setUp (s := s.allocated garbage) hs.next_notMem fun x hx => ?_
  have hne : x ≠ s.next := fun h => hs.next_notMem (h ▸ hx)
  obtain ⟨c, hc⟩ := hs.objects x hx
  exact ⟨c, by change Function.update _ _ _ _ = _; rw [Function.update_of_ne hne, hc]⟩

/-! ## What is loaded -/

/-- The fields other than the count, the lock and the links are left as they were loaded. -/
theorem getLE_setUp (s : Part) (p : Nat) (b : Buf) {off w : Nat}
    (h : off + w ≤ 16 ∨ 24 ≤ off ∧ off + w ≤ 32 ∨ 88 ≤ off ∧ off + w ≤ 144) :
    ((lockInit p (s.linked b)).putLE 16 8 1).getLE off w = b.getLE off w := by
  unfold lockInit Part.linked inodeTag
  iterate 10 rw [Buf.getLE_putLE_disjoint _ _ (by omega)]

/-- A field is loaded as the record holds it. -/
theorem getLE_loaded (s : Part) (garbage : Buf) (no : Nat) {off w : Nat} (h : off + w ≤ 160) :
    (s.loaded garbage no).getLE off w = s.disk.getLE (s.recordAddr no + off) w := by
  rw [← Buf.getLE_from]
  exact Buf.getLE_congr fun a _ ha => Buf.patch_start _ _ _ (by simp only [sizeofInode]; omega)

/-- A record that was stored holds the object's fields. -/
theorem getLE_storeRecord (s : Part) (b : Buf) {off w : Nat} (h : off + w ≤ 160) :
    (s.storeRecord b).disk.getLE (s.recordAddr (iNo b) + off) w = b.getLE off w := by
  unfold Part.storeRecord
  generalize s.recordAddr (iNo b) = pos
  rw [← Buf.getLE_from]
  exact Buf.getLE_congr fun a _ ha => Buf.from_patch_same _ _ _ _ (by simp only [sizeofInode]; omega)

/-- An inode loaded from the record of `b` is `b` in all that `inode_open` does not set up anew. -/
theorem sameFile_setUp (s u : Part) (p : Nat) (garbage b : Buf) :
    SameFile ((lockInit p (u.linked ((s.storeRecord b).loaded garbage (iNo b)))).putLE 16 8 1) b := by
  have hfield : ∀ {off w : Nat}, off + w ≤ 16 ∨ 24 ≤ off ∧ off + w ≤ 32 ∨ 88 ≤ off ∧ off + w ≤ 144 →
      ((lockInit p (u.linked ((s.storeRecord b).loaded garbage (iNo b)))).putLE 16 8 1).getLE off w
        = b.getLE off w := by
    intro off w h
    rw [getLE_setUp _ _ _ h, getLE_loaded _ _ _ (by omega), Part.recordAddr_storeRecord,
      getLE_storeRecord _ _ (by omega)]
  exact ⟨hfield (by omega), hfield (by omega), hfield (by omega),
    fun k hk => hfield (by simp only [NDIRECT] at hk; omega)⟩

/-- What `lock_init` leaves, also after the count is set. -/
theorem freshLock_setUp (p : Nat) (b : Buf) : FreshLock p ((lockInit p b).putLE 16 8 1) := by
  unfold lockInit
  constructor
  all_goals
    repeat
      first
      | rw [Buf.getLE_putLE_of_lt _ _ (by decide)]
      | rw [Buf.getLE_putLE_same]
      | rw [Buf.getLE_putLE_disjoint _ _ (by omega)]

/-! ## What `inode_open` reads of the disk -/

/-- A program that neither reads nor writes the disk. -/
def Blind {α : Type} (m : Prog Part α) : Prop :=
  ∀ s d a t, m s = .ok (a, t) → m { s with disk := d } = .ok (a, { t with disk := d })

section Blind

variable {α β : Type} {m : Prog Part α} {f : α → Prog Part β}

theorem Blind.bind (hm : Blind m) (hf : ∀ a, Blind (f a)) : Blind (m >>= f) := by
  intro s d b t h
  obtain ⟨a, u, hrun, hrest⟩ := Prog.bind_eq_ok.1 h
  rw [Prog.bind_of_ok (hm s d a u hrun)]
  exact hf a u d b t hrest

theorem blind_pure (a : α) : Blind (pure a : Prog Part α) := by
  rintro s d b t ⟨⟩
  rfl

theorem blind_setInode (p : Nat) (b : Buf) : Blind (setInode p b) := by
  rintro s d u t ⟨⟩
  rfl

theorem blind_inodeAt (p : Nat) : Blind (inodeAt p) := by
  intro s d b t h
  change Prog.ofOption (s.inodes p) s = _ at h
  obtain ⟨hp, rfl⟩ := Prog.ofOption_eq_ok.1 h
  exact run_inodeAt (s := { s with disk := d }) hp

theorem Blind.ofOption (o : Option α) : Blind (Prog.ofOption o) := by
  intro s d a t h
  obtain ⟨rfl, rfl⟩ := Prog.ofOption_eq_ok.1 h
  rfl

theorem blind_push (p : Nat) : Blind (Prog.modify fun s : Part => { s with open_inodes := p :: s.open_inodes }) := by
  rintro s d u t ⟨⟩
  rfl

theorem blind_listPush (p : Nat) : Blind (listPush p) := by
  intro s d u t h
  unfold listPush at h ⊢
  rw [Prog.bind_of_ok (a := s) (t := s) rfl] at h
  rw [Prog.bind_of_ok (a := { s with disk := d }) (t := { s with disk := d }) rfl]
  refine Blind.bind (blind_inodeAt p) (fun b => ?_) s d u t h
  dsimp only
  cases s.open_inodes with
  | nil => exact (blind_setInode _ _).bind fun _ => blind_push p
  | cons before rest =>
      exact (blind_setInode _ _).bind fun _ => (blind_inodeAt _).bind fun _ =>
        (blind_setInode _ _).bind fun _ => blind_push p

theorem blind_setUp (p : Nat) (b : Buf) : Blind (setUp p b) :=
  (blind_setInode p b).bind fun _ => (blind_listPush p).bind fun _ => (blind_inodeAt p).bind fun _ =>
    (blind_setInode _ _).bind fun _ => blind_pure _

end Blind

theorem loaded_congr {s : Part} {no : Nat} (garbage : Buf) {d : Buf}
    (hrec : ∀ k < 160, d (s.recordAddr no + k) = s.disk (s.recordAddr no + k)) :
    { s with disk := d }.loaded garbage no = s.loaded garbage no := by
  unfold Part.loaded
  rw [Part.recordAddr_disk]
  exact Buf.patch_congr _ _ _ hrec

/-- `inode_open` reads only the record of the inode it is given: on a disk that holds the same record it
    returns the same pointer and leaves the same objects and the same list. -/
theorem inodeOpen_congr {s : Part} {no : Nat} {garbage : Buf} {p : Nat} {t : Part} {d : Buf}
    (hno : no < 4096) (hrec : ∀ k < 160, d (s.recordAddr no + k) = s.disk (s.recordAddr no + k))
    (h : inodeOpen garbage no s = .ok (p, t)) :
    inodeOpen garbage no { s with disk := d } = .ok (p, { t with disk := d }) := by
  cases hfind : s.findInode no with
  | some q =>
      have hfind' : { s with disk := d }.findInode no = some q := hfind
      unfold inodeOpen at h ⊢
      simp only [Prog.run_gets_bind, hfind] at h
      simp only [Prog.run_gets_bind, hfind']
      exact ((blind_inodeAt q).bind fun _ => (blind_setInode _ _).bind fun _ => blind_pure q) s d p t h
  | none =>
      have hfind' : { s with disk := d }.findInode no = none := hfind
      rw [inodeOpen_new garbage hfind hno] at h
      rw [inodeOpen_new garbage hfind' hno, loaded_congr garbage hrec]
      exact blind_setUp _ _ _ d p t h

/-- `inode_open` does not fail. -/
theorem inodeOpen_total {s : Part} (hs : s.Ok) {no : Nat} (hno : no < 4096) (garbage : Buf) :
    ∃ p t, inodeOpen garbage no s = .ok (p, t) := by
  cases hfind : s.findInode no with
  | some q =>
      obtain ⟨b, hb⟩ := hs.objects q (List.mem_of_find?_eq_some hfind)
      unfold inodeOpen
      simp only [Prog.run_gets_bind, hfind]
      rw [Prog.bind_of_ok (run_inodeAt hb)]
      exact ⟨_, _, rfl⟩
  | none =>
      obtain ⟨t, hrun, -⟩ := hs.run_open garbage hfind hno
      exact ⟨_, t, hrun⟩

/-- The inode table as a codec: an inode that was written by `inode_sync` is read back by `inode_open`, and
    no other record and no other sector is touched. -/
theorem inode_codec {s : Part} (hs : s.Ok) {q : Nat} {b : Buf} (hq : s.inodes q = some b) {j : Nat}
    (hi : iNo b < 4096) (hj : j < 4096) (hne : iNo b ≠ j) (garbage : Buf) :
    ∃ s', inodeSync q s = .ok ((), s') ∧
      (s'.findInode (iNo b) = none → ∃ p c t, inodeOpen garbage (iNo b) s' = .ok (p, t) ∧
        t.inodes p = some c ∧ SameFile c b ∧ FreshLock p c ∧ iOpenCnts c = 1) ∧
      (∃ p t, inodeOpen garbage j s = .ok (p, t) ∧
        inodeOpen garbage j s' = .ok (p, { t with disk := s'.disk })) ∧
      (∀ k, ¬ s.Occupies (iNo b) k → Buf.Agree s'.disk s.disk (SECTOR_SIZE * k) SECTOR_SIZE) := by
  have hfile := fun u p => sameFile_setUp s u p garbage b
  have hother := fun k (hk : k < 160) => Part.storeRecord_other (s := s) hi hj hne hk
  have hsector := fun k => Part.storeRecord_sector (s := s) (b := b) (k := k)
  refine ⟨_, run_inodeSync hq hi, ?_⟩
  -- Of the new disk nothing but these three facts is used.
  obtain ⟨d, hd⟩ : ∃ d, s.storeRecord b = { s with disk := d } := ⟨_, rfl⟩
  rw [hd] at hfile hother hsector ⊢
  refine ⟨fun hnew => ?_, ?_, hsector⟩
  · obtain ⟨t, hrun, hobj⟩ := (hs.disk d).run_open garbage hnew hi
    exact ⟨_, _, t, hrun, hobj, hfile _ _, freshLock_setUp _ _, Buf.getLE_putLE_of_lt _ _ (by decide)⟩
  · obtain ⟨p, t, hrun⟩ := inodeOpen_total hs hj garbage
    exact ⟨p, t, hrun, inodeOpen_congr hj hother hrun⟩

/-- One inode in memory, nothing open, an empty disk; its record straddles two sectors. -/
def onePart : Part where
  disk := Buf.zero
  inode_table_lba := 2
  list_head := 16
  open_inodes := []
  inodes := Function.update (fun _ => none) 64 (some (Buf.zero.putLE 0 8 3))
  next := 1024

theorem inode_codec_onePart : onePart.Ok ∧ ∃ s', inodeSync 64 onePart = .ok ((), s') ∧
    (s'.findInode 3 = none → ∃ p c t, inodeOpen Buf.zero 3 s' = .ok (p, t) ∧
      t.inodes p = some c ∧ SameFile c (Buf.zero.putLE 0 8 3) ∧ FreshLock p c ∧ iOpenCnts c = 1) ∧
    (∃ p t, inodeOpen Buf.zero 4095 onePart = .ok (p, t) ∧
      inodeOpen Buf.zero 4095 s' = .ok (p, { t with disk := s'.disk })) ∧
    (∀ k, ¬ onePart.Occupies 3 k →
      Buf.Agree s'.disk onePart.disk (SECTOR_SIZE * k) SECTOR_SIZE) := by
  have hno : iNo (Buf.zero.putLE 0 8 3) = 3 := Buf.getLE_putLE_of_lt _ _ (by decide)
  have hfresh : ∀ p, 1024 ≤ p → onePart.inodes p = none := by
    intro p hp
    have hne : p ≠ 64 := by omega
    simp only [onePart, Function.update_of_ne hne]
  have hs : onePart.Ok := ⟨nofun, hfresh⟩
  have hq : onePart.inodes 64 = some (Buf.zero.putLE 0 8 3) := by
    simp only [onePart, Function.update_self]
  have h := @inode_codec onePart hs 64 (Buf.zero.putLE 0 8 3) hq 4095
    (by omega) (by decide) (by omega) Buf.zero
  rw [hno] at h
  exact ⟨hs, h⟩

end Codec

end RecoverOS
