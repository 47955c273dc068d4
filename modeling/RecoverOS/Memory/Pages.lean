import RecoverOS.Memory.PageMap

set_option autoImplicit false

/-! # Pages of a virtual pool (`kernel/memory.c`)

`alloc_pages`, `free_pages` and `release_prog_mem`, over the page tables and one `virt_pool`. `free_pages` sets the bit
of the frame in `phy_pool`, as `palloc` did: a frame that goes through it is not free afterwards. -/

namespace RecoverOS

open Paging

/-- `struct virt_pool`, without the block lists of the heap. -/
structure VirtPool where
  start : Nat
  pool_bitmap : Bitmap

/-- What the page functions work on: the machine and one virtual pool. -/
structure Space where
  mem : Memory
  vpool : VirtPool

/-- Run a computation on the machine. -/
def onMem {α : Type} (m : Prog Memory α) : Prog Space α :=
  Prog.zoom Space.mem (fun mem s => { s with mem := mem }) m

/-- Run a computation on the bitmap of the virtual pool. -/
def onPool {α : Type} (m : Prog Bitmap α) : Prog Space α :=
  Prog.zoom (fun s => s.vpool.pool_bitmap)
    (fun b s => { s with vpool := { s.vpool with pool_bitmap := b } }) m

/-- `vpool_alloc`; `none` stands for `NULL`. -/
def vpoolAlloc (cnt : Nat) : Prog Space (Option Nat) := do
  let idx ← onPool (bitmapAlloc cnt)
  let s ← Prog.get
  pure (idx.map fun idx => idx * 4096 + s.vpool.start)

/-- The loop of `alloc_pages`, from page `i` on with `n` pages left; `false` when `palloc` returns
    `NULL`. -/
def allocPagesFrom (vaddr : Nat) : Nat → Nat → Prog Memory Bool
  | 0, _ => pure true
  | n + 1, i => do
      let paddr ← palloc
      match paddr with
      | none => pure false
      | some p => do
          pageMap (vaddr + i * 4096) p
          allocPagesFrom vaddr n (i + 1)

/-- `alloc_pages`; `none` stands for `NULL`. -/
def allocPages (cnt : Nat) : Prog Space (Option Nat) := do
  let vaddr ← vpoolAlloc cnt
  match vaddr with
  | none => pure none
  | some v => do
      let ok ← onMem (allocPagesFrom v cnt 0)
      pure (if ok then some v else none)

/-- The index in `phy_pool` of a physical address, with the wrap of `size_t`. -/
def phyIdx (m : Memory) (paddr : Nat) : Nat := (paddr + 2 ^ 64 - m.phy_pool.start) % 2 ^ 64 / 4096

/-- `bitmap_set` on `phy_pool.pool_bitmap`. -/
def setPhy (idx : Nat) (value : Bool) : Prog Memory Unit := do
  let m ← Prog.get
  Prog.require (idx < m.phy_pool.pool_bitmap.size)
  Prog.modify fun m =>
    { m with phy_pool := { m.phy_pool with
        pool_bitmap := bitmapSet m.phy_pool.pool_bitmap idx value } }

/-- `flush_tlb_force`, for a running thread with this `pml4`; `none` stands for `NULL`. -/
def flushTlbForce (pml4 : Option Nat) : Prog Memory Unit := do
  let cr3 ← match pml4 with
    | none => pure 0x100000
    | some p => addrV2p p
  Prog.modify fun m => { m with cr3 := cr3 / 4096 % 2 ^ 40 }

/-- One turn of the loop of `free_pages`. -/
def freePage (pml4 : Option Nat) (vaddr : Nat) : Prog Memory Unit := do
  let paddr ← addrV2p vaddr
  let m ← Prog.get
  let pte ← load (ptePtr vaddr)
  Prog.assert (pte &&& 1 ≠ 0)
  store (ptePtr vaddr) (pte + 2 ^ 64 - 1)
  flushTlbForce pml4
  setPhy (phyIdx m paddr) true

/-- The loop of `free_pages`, from page `i` on with `n` pages left. -/
def freePagesFrom (pml4 : Option Nat) (ptr : Nat) : Nat → Nat → Prog Memory Unit
  | 0, _ => pure ()
  | n + 1, i => do
      freePage pml4 (ptr + i * 4096)
      freePagesFrom pml4 ptr n (i + 1)

/-- `free_pages`, called by a thread with this `pml4`. -/
def freePages (pml4 : Option Nat) (ptr cnt : Nat) : Prog Space Unit := do
  onMem (freePagesFrom pml4 ptr cnt 0)
  let s ← Prog.get
  onPool (bitmapFree ((ptr + 2 ^ 64 - s.vpool.start) % 2 ^ 64 / 4096) cnt)

/-- The `while` loop of `release_prog_mem`: the tables of `vaddr` from level `map_status` up. -/
def releaseTables (vaddr : Nat) : Nat → Prog Memory Unit
  | 0 => pure ()
  | map_status + 1 => do
      let paddr ← addrV2p (0xfffffffffffff000 &&& fu (map_status + 1) vaddr)
      let m ← Prog.get
      setPhy (phyIdx m paddr) false
      releaseTables vaddr map_status

/-- One turn of the loop of `release_prog_mem`. -/
def releasePage (pml4 : Option Nat) (vaddr : Nat) : Prog Space Unit := do
  let map_status ← onMem (mapStat vaddr)
  if map_status = 4 then do
    freePages pml4 vaddr 1
    onMem (releaseTables vaddr 3)
  else onMem (releaseTables vaddr map_status)

/-- The loop of `release_prog_mem`, from page `i` on with `n` pages left. -/
def releaseProgMemFrom (pml4 : Option Nat) : Nat → Nat → Prog Space Unit
  | 0, _ => pure ()
  | n + 1, i => do
      let s ← Prog.get
      releasePage pml4 (s.vpool.start + i * 4096)
      releaseProgMemFrom pml4 n (i + 1)

/-- `release_prog_mem`, of the running thread. -/
def releaseProgMem (pml4 : Option Nat) : Prog Space Unit := do
  Prog.assert (pml4 ≠ none)
  let s ← Prog.get
  releaseProgMemFrom pml4 (8 * s.vpool.pool_bitmap.bytes_len) 0

/-! ## What freeing does to the frames -/

/-- The pool is where it was, and no frame in use has become free. -/
def Memory.KeepsUsed (m m' : Memory) : Prop :=
  m'.phy_pool.start = m.phy_pool.start ∧
    ∀ i, bitmapRead m.phy_pool.pool_bitmap i = true → bitmapRead m'.phy_pool.pool_bitmap i = true

instance : IsPreorder Memory Memory.KeepsUsed where
  refl _ := ⟨rfl, fun _ h => h⟩
  trans _ _ _ h h' := ⟨h'.1.trans h.1, fun i hi => h'.2 i (h.2 i hi)⟩

section Free

variable {m m' : Memory} {s s' : Space} {pml4 : Option Nat} {vaddr paddr ptr : Nat}

theorem load_keeps (vaddr : Nat) : (load vaddr).Extends Memory.KeepsUsed :=
  Prog.Extends.bind Prog.Extends.get fun _ =>
    Prog.Extends.bind (Prog.Extends.ofOption _) fun _ => Prog.Extends.pure _

theorem store_keeps (vaddr value : Nat) : (store vaddr value).Extends Memory.KeepsUsed :=
  Prog.Extends.bind Prog.Extends.get fun _ =>
    Prog.Extends.bind (Prog.Extends.ofOption _) fun _ => Prog.Extends.modify fun _ => ⟨rfl, fun _ h => h⟩

theorem addrV2p_keeps (vaddr : Nat) : (addrV2p vaddr).Extends Memory.KeepsUsed :=
  Prog.Extends.bind (load_keeps _) fun _ => Prog.Extends.pure _

theorem flushTlbForce_keeps (pml4 : Option Nat) : (flushTlbForce pml4).Extends Memory.KeepsUsed := by
  have hset : ∀ cr3, (Prog.modify fun m : Memory => { m with cr3 := cr3 / 4096 % 2 ^ 40 }).Extends
      Memory.KeepsUsed := fun cr3 => Prog.Extends.modify fun _ => ⟨rfl, fun _ h => h⟩
  cases pml4 with
  | none => exact Prog.Extends.bind (Prog.Extends.pure _) fun _ => hset _
  | some p => exact Prog.Extends.bind (addrV2p_keeps p) fun _ => hset _

theorem setPhy_keeps (idx : Nat) : (setPhy idx true).Extends Memory.KeepsUsed := by
  refine Prog.Extends.bind Prog.Extends.get fun _ => Prog.Extends.bind Prog.Extends.require fun _ =>
    Prog.Extends.modify fun m => ⟨rfl, fun i hi => ?_⟩
  show bitmapRead (bitmapSet m.phy_pool.pool_bitmap idx true) i = true
  rw [bitmapRead_bitmapSet]
  split
  · rfl
  · exact hi

theorem freePage_keeps (pml4 : Option Nat) (vaddr : Nat) :
    (freePage pml4 vaddr).Extends Memory.KeepsUsed :=
  Prog.Extends.bind (addrV2p_keeps _) fun _ => Prog.Extends.bind Prog.Extends.get fun _ =>
    Prog.Extends.bind (load_keeps _) fun _ => Prog.Extends.bind Prog.Extends.assert fun _ =>
      Prog.Extends.bind (store_keeps _ _) fun _ => Prog.Extends.bind (flushTlbForce_keeps _) fun _ =>
        setPhy_keeps _

theorem freePagesFrom_keeps (pml4 : Option Nat) (ptr n i : Nat) :
    (freePagesFrom pml4 ptr n i).Extends Memory.KeepsUsed := by
  induction n generalizing i with
  | zero => exact Prog.Extends.pure ()
  | succ n ih => exact Prog.Extends.bind (freePage_keeps pml4 _) fun _ => ih (i + 1)

/-- `free_pages` leaves the frame of the page marked as in use. -/
theorem freePage_used (h : freePage pml4 vaddr m = .ok ((), m'))
    (hpaddr : addrV2p vaddr m = .ok (paddr, m)) :
    bitmapRead m'.phy_pool.pool_bitmap (phyIdx m paddr) = true := by
  rw [freePage, Prog.bind_of_ok hpaddr] at h
  obtain ⟨m0, m1, hget, h⟩ := Prog.bind_eq_ok.1 h
  obtain ⟨rfl, rfl⟩ := Prog.get_eq_ok.1 hget
  obtain ⟨pte, m2, -, h⟩ := Prog.bind_eq_ok.1 h
  obtain ⟨⟨⟩, m3, -, h⟩ := Prog.bind_eq_ok.1 h
  obtain ⟨⟨⟩, m4, -, h⟩ := Prog.bind_eq_ok.1 h
  obtain ⟨⟨⟩, m5, -, h⟩ := Prog.bind_eq_ok.1 h
  simp only [setPhy, Prog.bind_eq_ok, Prog.get_eq_ok, Prog.require_eq_ok, Prog.modify_eq_ok] at h
  obtain ⟨t, t', ⟨rfl, rfl⟩, -, t'', ⟨-, rfl⟩, rfl⟩ := h
  exact bitmapRead_bitmapSet_self _ _ _

/-- The last part of `free_pages` works on the virtual pool only. -/
theorem freePages_run {cnt : Nat} (h : freePages pml4 ptr cnt s = .ok ((), s')) :
    freePagesFrom pml4 ptr cnt 0 s.mem = .ok ((), s'.mem) := by
  obtain ⟨⟨⟩, s1, hmem, h⟩ := Prog.bind_eq_ok.1 h
  obtain ⟨s2, s3, hget, h⟩ := Prog.bind_eq_ok.1 h
  obtain ⟨rfl, rfl⟩ := Prog.get_eq_ok.1 hget
  obtain ⟨mem, hrun, rfl⟩ := Prog.zoom_eq_ok.1 hmem
  obtain ⟨b, -, rfl⟩ := Prog.zoom_eq_ok.1 h
  exact hrun

theorem freePages_keeps (pml4 : Option Nat) (ptr cnt : Nat) :
    (freePages pml4 ptr cnt).Extends fun s s' => s.mem.KeepsUsed s'.mem :=
  fun s _ s' h => freePagesFrom_keeps pml4 ptr cnt 0 s.mem () s'.mem (freePages_run h)

/-- A page that goes through `free_pages` leaves its frame marked as in use. -/
theorem freePages_used (h : freePages pml4 ptr 1 s = .ok ((), s'))
    (hpaddr : addrV2p ptr s.mem = .ok (paddr, s.mem)) :
    bitmapRead s'.mem.phy_pool.pool_bitmap (phyIdx s.mem paddr) = true := by
  have hrun := freePages_run h
  rw [freePagesFrom, Nat.zero_mul, Nat.add_zero] at hrun
  obtain ⟨⟨⟩, m1, hpage, hdone⟩ := Prog.bind_eq_ok.1 hrun
  obtain ⟨-, hm⟩ := Prog.pure_eq_ok.1 hdone
  rw [← hm]
  exact freePage_used hpage hpaddr

end Free

end RecoverOS
