import RecoverOS.Memory.Heap
import RecoverOS.UserProg.Release

set_option autoImplicit false

/-! # Closing an inode (`fs/inode.c`)

The objects of open inodes are blocks of the kernel's heap. `inode_close` hides the pml4 of the running thread
from `sys_free`, so that the block goes back there; when it is the last one of its arena, `free_pages` loads
`cr3` by the hidden pml4. -/

namespace RecoverOS

/-- The kernel's heap, the pml4 of the running thread, and the open inodes: each goes by the address of its
    block. -/
structure InodeHeap where
  heap : Heap
  pml4 : Option Nat
  root_dir_inode : Nat
  i_open_cnts : Nat → Nat
  open_inodes : List Nat

namespace InodeHeap

/-! ## The code -/

def onHeap {α : Type} (m : Prog Heap α) : Prog InodeHeap α :=
  Prog.zoom InodeHeap.heap (fun heap s => { s with heap := heap }) m

/-- `inode_close`. -/
def inodeClose (inode : Nat) : Prog InodeHeap Unit := do
  let s ← Prog.get
  if inode = s.root_dir_inode then pure ()
  else do
    let i_open_cnts := (s.i_open_cnts inode + 2 ^ 64 - 1) % 2 ^ 64
    Prog.modify fun s => { s with i_open_cnts := Function.update s.i_open_cnts inode i_open_cnts }
    if i_open_cnts = 0 then do
      Prog.modify fun s => { s with open_inodes := s.open_inodes.erase inode, pml4 := none }
      onHeap (Heap.sysFree none inode)
      Prog.modify fun t => { t with pml4 := s.pml4 }
    else pure ()

/-! ## The page-table root -/

/-- The physical address in `cr3` is that of the pml4 of the running thread, as `m` maps it. -/
def RootLoaded (m : Memory) (s : InodeHeap) : Prop :=
  ∃ pml4, s.pml4 = some pml4 ∧ addrV2p pml4 m = .ok (4096 * s.heap.space.mem.cr3, m)

/-- A user process runs, with its own pml4, and `inode` is open: a block in an arena of the heap. -/
structure Running (s : InodeHeap) (inode : Nat) : Prop where
  root : s.RootLoaded s.heap.space.mem
  /-- The pml4 of a process is not that of the kernel. -/
  own : s.heap.space.mem.cr3 ≠ 0x100
  opened : 1 ≤ s.i_open_cnts inode ∧ s.i_open_cnts inode < 2 ^ 64
  block : ∃ a i, s.heap.arenas (Heap.block2arena inode) = some a ∧ a.desc = some i

/-- All other blocks of the arena that holds the inode are free. -/
def LastBlock (s : InodeHeap) (inode : Nat) : Prop :=
  ∃ a i, s.heap.arenas (Heap.block2arena inode) = some a ∧ a.desc = some i ∧
    a.cnt + 1 = (s.heap.descs i).blocks_per_arena

end InodeHeap

/-! ## What freeing does to `cr3` -/

/-- `free_pages` for a thread without a pml4 leaves the kernel's in `cr3`. -/
theorem freePage_cr3 {m m' : Memory} {vaddr : Nat} (h : freePage none vaddr m = .ok ((), m')) :
    m'.cr3 = 0x100 := by
  obtain ⟨paddr, m1, -, h⟩ := Prog.bind_eq_ok.1 h
  obtain ⟨m2, m3, -, h⟩ := Prog.bind_eq_ok.1 h
  obtain ⟨pte, m4, -, h⟩ := Prog.bind_eq_ok.1 h
  obtain ⟨⟨⟩, m5, -, h⟩ := Prog.bind_eq_ok.1 h
  obtain ⟨⟨⟩, m6, -, h⟩ := Prog.bind_eq_ok.1 h
  obtain ⟨⟨⟩, m7, hflush, h⟩ := Prog.bind_eq_ok.1 h
  have hcr3 : m7.cr3 = 0x100 := by
    obtain ⟨cr3, mc, hcr3, hset⟩ := Prog.bind_eq_ok.1 hflush
    obtain ⟨rfl, -⟩ := Prog.pure_eq_ok.1 hcr3
    rw [Prog.modify_eq_ok.1 hset]
    show 0x100000 / 4096 % 2 ^ 40 = 0x100
    decide
  obtain ⟨m8, m9, hget, h⟩ := Prog.bind_eq_ok.1 h
  obtain ⟨rfl, rfl⟩ := Prog.get_eq_ok.1 hget
  obtain ⟨⟨⟩, m10, hrequire, h⟩ := Prog.bind_eq_ok.1 h
  obtain ⟨-, rfl⟩ := Prog.require_eq_ok.1 hrequire
  rw [Prog.modify_eq_ok.1 h]
  exact hcr3

theorem freePages_cr3 {s s' : Space} {ptr : Nat} (h : freePages none ptr 1 s = .ok ((), s')) :
    s'.mem.cr3 = 0x100 := by
  have hrun := freePages_run h
  obtain ⟨⟨⟩, m, hpage, hdone⟩ := Prog.bind_eq_ok.1 hrun
  obtain ⟨-, rfl⟩ := Prog.pure_eq_ok.1 hdone
  exact freePage_cr3 hpage

namespace Heap

/-- The pages are as they were, and the arenas as large. -/
structure SamePages (s s' : Heap) : Prop where
  space : s'.space = s.space
  count : ∀ i, (s'.descs i).blocks_per_arena = (s.descs i).blocks_per_arena

instance : IsPreorder Heap SamePages where
  refl _ := ⟨rfl, fun _ => rfl⟩
  trans _ _ _ h h' := ⟨h'.space.trans h.space, fun i => (h'.count i).trans (h.count i)⟩

theorem setFreeList_samePages (i : Nat) (l : List Nat) : (setFreeList i l).Extends SamePages :=
  .modify fun s => ⟨rfl, fun j => withFree_count s i j l⟩

theorem appendBlock_samePages (i b : Nat) : (appendBlock i b).Extends SamePages :=
  .bind .get fun _ => .bind .assert fun _ => setFreeList_samePages i _

theorem setArena_samePages (a : Nat) (v : Arena) : (setArena a v).Extends SamePages :=
  .modify fun _ => ⟨rfl, fun _ => rfl⟩

theorem freeArena_cr3 {s s' : Heap} {a : Nat} (h : freeArena none a 1 s = .ok ((), s')) :
    s'.space.mem.cr3 = 0x100 := by
  obtain ⟨⟨⟩, s1, -, h⟩ := Prog.bind_eq_ok.1 h
  obtain ⟨t, hpages, rfl⟩ := Prog.zoom_eq_ok.1 h
  exact freePages_cr3 hpages

/-- `sys_free` of a block for a thread without a pml4 loads the kernel's when the arena goes, and leaves
    `cr3` alone when it stays. -/
theorem sysFree_cr3 {s s' : Heap} {ptr i : Nat} {a : Arena} (ha : s.arenas (block2arena ptr) = some a)
    (hdesc : a.desc = some i) (h : sysFree none ptr s = .ok ((), s')) :
    s'.space.mem.cr3 = if a.cnt + 1 = (s.descs i).blocks_per_arena then 0x100 else s.space.mem.cr3 := by
  obtain ⟨cnt, desc⟩ := a
  obtain rfl : desc = some i := hdesc
  obtain ⟨⟨⟩, s1, hassert, h⟩ := Prog.bind_eq_ok.1 h
  obtain ⟨-, rfl⟩ := Prog.assert_eq_ok.1 hassert
  obtain ⟨c, s2, harena, h⟩ := Prog.bind_eq_ok.1 h
  obtain ⟨s3, s4, hget, harena⟩ := Prog.bind_eq_ok.1 harena
  obtain ⟨rfl, rfl⟩ := Prog.get_eq_ok.1 hget
  obtain ⟨hc, rfl⟩ := Prog.ofOption_eq_ok.1 harena
  obtain rfl : ⟨cnt, some i⟩ = c := Option.some.inj (ha.symm.trans hc)
  obtain ⟨⟨⟩, s5, happend, h⟩ := Prog.bind_eq_ok.1 h
  obtain ⟨⟨⟩, s6, hstore, h⟩ := Prog.bind_eq_ok.1 h
  have hsame : SamePages s s6 :=
    trans_of SamePages (appendBlock_samePages i ptr _ _ _ happend) (setArena_samePages _ _ _ _ _ hstore)
  obtain ⟨s7, s8, hget, h⟩ := Prog.bind_eq_ok.1 h
  obtain ⟨rfl, rfl⟩ := Prog.get_eq_ok.1 hget
  rw [hsame.count] at h
  dsimp only at h ⊢
  split_ifs at h ⊢ with hfull
  · obtain ⟨⟨⟩, s9, -, h⟩ := Prog.bind_eq_ok.1 h
    exact freeArena_cr3 h
  · obtain ⟨-, rfl⟩ := Prog.pure_eq_ok.1 h
    rw [hsame.space]

end Heap

/-! ## The whole call -/

namespace InodeHeap

variable {s s' : InodeHeap} {inode : Nat}

/-- The inode goes, and the arena that holds it. -/
def FreesArena (s : InodeHeap) (inode : Nat) : Prop :=
  inode ≠ s.root_dir_inode ∧ s.i_open_cnts inode = 1 ∧ s.LastBlock inode

/-- What `inode_close` leaves in `cr3`, and the pml4 of the thread. -/
theorem inodeClose_cr3 (h : s.Running inode) (hrun : inodeClose inode s = .ok ((), s')) :
    s'.pml4 = s.pml4 ∧ (s.FreesArena inode → s'.heap.space.mem.cr3 = 0x100) ∧
      (¬ s.FreesArena inode → s'.heap.space.mem.cr3 = s.heap.space.mem.cr3) := by
  obtain ⟨a, i, ha, hdesc⟩ := h.block
  obtain ⟨hpos, hlt⟩ := h.opened
  obtain ⟨t, s1, hget, hrun⟩ := Prog.bind_eq_ok.1 hrun
  obtain ⟨rfl, rfl⟩ := Prog.get_eq_ok.1 hget
  split_ifs at hrun with hroot
  · obtain ⟨-, rfl⟩ := Prog.pure_eq_ok.1 hrun
    exact ⟨rfl, fun hfrees => absurd hroot hfrees.1, fun _ => rfl⟩
  obtain ⟨⟨⟩, s2, hcount, hrun⟩ := Prog.bind_eq_ok.1 hrun
  rw [Prog.modify_eq_ok.1 hcount] at hrun
  split_ifs at hrun with hzero
  · have hone : s.i_open_cnts inode = 1 := by omega
    obtain ⟨⟨⟩, s3, hhide, hrun⟩ := Prog.bind_eq_ok.1 hrun
    rw [Prog.modify_eq_ok.1 hhide] at hrun
    obtain ⟨⟨⟩, s4, hfree, hrun⟩ := Prog.bind_eq_ok.1 hrun
    obtain ⟨heap, hblock, rfl⟩ := Prog.zoom_eq_ok.1 hfree
    have hcr3 := Heap.sysFree_cr3 ha hdesc hblock
    rw [Prog.modify_eq_ok.1 hrun]
    refine ⟨rfl, fun hfrees => ?_, fun hkeeps => ?_⟩
    · obtain ⟨-, -, b, j, hb, hj, hfull⟩ := hfrees
      obtain rfl : a = b := Option.some.inj (ha.symm.trans hb)
      obtain rfl : i = j := Option.some.inj (hdesc.symm.trans hj)
      exact hcr3.trans (if_pos hfull)
    · exact hcr3.trans (if_neg fun hfull => hkeeps ⟨hroot, hone, a, i, ha, hdesc, hfull⟩)
  · obtain ⟨-, rfl⟩ := Prog.pure_eq_ok.1 hrun
    exact ⟨rfl, fun hfrees => absurd hfrees.2.1 (by omega), fun _ => rfl⟩

/-- After `inode_close` the pml4 of the running thread is still in `cr3`, exactly when the call does not free
    the arena that holds the inode. -/
theorem rootLoaded_iff (h : s.Running inode) (hrun : inodeClose inode s = .ok ((), s')) :
    s'.RootLoaded s.heap.space.mem ↔
      inode = s.root_dir_inode ∨ s.i_open_cnts inode ≠ 1 ∨ ¬ s.LastBlock inode := by
  obtain ⟨hpml4, hfrees, hkeeps⟩ := inodeClose_cr3 h hrun
  obtain ⟨p, hp, hroot⟩ := h.root
  have hiff : s'.RootLoaded s.heap.space.mem ↔ s'.heap.space.mem.cr3 = s.heap.space.mem.cr3 := by
    constructor
    · rintro ⟨q, hq, hroot'⟩
      obtain rfl : p = q := Option.some.inj (hp.symm.trans (hpml4.symm.trans hq))
      have heq := congrArg Prod.fst (Except.ok.inj (hroot.symm.trans hroot'))
      dsimp only at heq
      omega
    · intro hcr3
      exact ⟨p, hpml4.trans hp, by rw [hcr3]; exact hroot⟩
  rw [hiff]
  by_cases hcond : s.FreesArena inode
  · refine iff_of_false (fun hcr3 => h.own (hcr3.symm.trans (hfrees hcond))) ?_
    rintro (hroot | hone | hlast)
    · exact hcond.1 hroot
    · exact hone hcond.2.1
    · exact hlast hcond.2.2
  · refine iff_of_true (hkeeps hcond) ?_
    by_contra hnot
    rw [not_or, not_or, not_not, not_not] at hnot
    exact hcond hnot

/-! ## A process closes its only file -/

/-- Thread 1 runs with its pml4 in frame `0x104`, and a fifth page of the kernel's pool is mapped. -/
def inodeMemory : Memory :=
  { Machine.stackOnly.mem with
    word := fun t j =>
      if t = 0x103 ∧ j = 260 then 0x112007
      else if t = 0x100 then if j = 256 then 0x101007 else if j = 511 then 0x100007 else 0
      else Machine.stackOnly.mem.word t j
    phy_pool := {
      start := 0x104000
      pool_bitmap := {
        bytes_len := 32735, bits := fun a => if a = 0 then 0xff else if a = 1 then 0x7f else 0 } } }

/-- That page is an arena of 15 blocks of 256 bytes, the size for an inode: the first block is the inode, and
    the other ones are free. -/
def oneInode (i_open_cnts : Nat) : InodeHeap where
  heap := {
    space := {
      mem := inodeMemory
      vpool := {
        start := 0xffff800000100000
        pool_bitmap := { bytes_len := 256, bits := fun a => if a = 0 then 0x1f else 0 } } }
    descs := fun i =>
      if i = 4 then
        { Heap.memDescInit 4 with
          free_list := (List.range 14).map fun k => 0xffff800000104010 + (k + 1) * 256 }
      else Heap.memDescInit i
    arenas := fun a => if a = 0xffff800000104000 then some ⟨14, some 4⟩ else none }
  pml4 := some 0xffff800000101000
  root_dir_inode := 0
  i_open_cnts := fun inode => if inode = 0xffff800000104010 then i_open_cnts else 0
  open_inodes := [0xffff800000104010]

theorem inodeMemory_root :
    addrV2p 0xffff800000101000 inodeMemory = .ok (4096 * inodeMemory.cr3, inodeMemory) := by
  have hself : Paging.SelfMapped inodeMemory.word inodeMemory.cr3 := by
    unfold Paging.SelfMapped
    decide +kernel
  have htranslate : inodeMemory.translate 0xffff800000101000 = some (4096 * inodeMemory.cr3) := by
    decide +kernel
  have hentry : inodeMemory.entry 0xffff800000101000 3 = some 0x104007 := by decide +kernel
  exact addrV2p_of_translate hself htranslate hentry (by decide)

theorem oneInode_running {n : Nat} (hn : 1 ≤ n ∧ n < 2 ^ 64) : (oneInode n).Running 0xffff800000104010 where
  root := ⟨0xffff800000101000, rfl, inodeMemory_root⟩
  own := by
    show inodeMemory.cr3 ≠ 0x100
    decide
  opened := by
    show 1 ≤ (if 0xffff800000104010 = 0xffff800000104010 then n else 0) ∧ _
    rwa [if_pos rfl]
  block := ⟨⟨14, some 4⟩, 4, rfl, rfl⟩

/-- Whether `inode_close` returns, and what is in `cr3` then. -/
def closedRoot (s : InodeHeap) : Option Nat :=
  match inodeClose 0xffff800000104010 s with
  | .ok (_, s') => some s'.heap.space.mem.cr3
  | .error _ => none

theorem closedRoot_eq_some {s : InodeHeap} {cr3 : Nat} (h : closedRoot s = some cr3) :
    ∃ s', inodeClose 0xffff800000104010 s = .ok ((), s') ∧ s'.heap.space.mem.cr3 = cr3 := by
  unfold closedRoot at h
  split at h
  · next s' hrun => exact ⟨s', hrun, Option.some.inj h⟩
  · exact absurd h nofun

/-- The inode is open a second time. -/
theorem rootLoaded_iff_twice : ∃ s', inodeClose 0xffff800000104010 (oneInode 2) = .ok ((), s') ∧
    (s'.RootLoaded (oneInode 2).heap.space.mem ↔ 0xffff800000104010 = (oneInode 2).root_dir_inode ∨
      (oneInode 2).i_open_cnts 0xffff800000104010 ≠ 1 ∨ ¬ (oneInode 2).LastBlock 0xffff800000104010) := by
  have hclosed : closedRoot (oneInode 2) = some 0x104 := by decide +kernel
  obtain ⟨s', hrun, -⟩ := closedRoot_eq_some hclosed
  exact ⟨s', hrun, rootLoaded_iff (oneInode_running (by decide)) hrun⟩

/-- It is closed for the last time: the kernel's pml4 is in `cr3`. -/
theorem not_rootLoaded_once : (oneInode 1).Running 0xffff800000104010 ∧
    ∃ s', inodeClose 0xffff800000104010 (oneInode 1) = .ok ((), s') ∧ ¬ s'.RootLoaded inodeMemory := by
  have hrunning := oneInode_running (n := 1) (by decide)
  have hclosed : closedRoot (oneInode 1) = some 0x100 := by decide +kernel
  obtain ⟨s', hrun, hcr3⟩ := closedRoot_eq_some hclosed
  refine ⟨hrunning, s', hrun, ?_⟩
  rintro ⟨p, hp, hroot⟩
  obtain ⟨hpml4, -, -⟩ := inodeClose_cr3 hrunning hrun
  obtain rfl : 0xffff800000101000 = p := Option.some.inj (hpml4.symm.trans hp)
  have heq := congrArg Prod.fst (Except.ok.inj (inodeMemory_root.symm.trans hroot))
  rw [hcr3] at heq
  exact absurd heq (by decide)

end InodeHeap

end RecoverOS
