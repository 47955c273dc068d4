import RecoverOS.Base.Run
import RecoverOS.Memory.FailedAlloc

set_option autoImplicit false

/-! # The heap (`kernel/memory.c`)

`sys_malloc` and `sys_free` over one virtual pool: blocks of up to 1024 bytes come from arenas of one page and
one size of block, larger ones from a run of pages with an arena in front. An arena goes by the address of its
page, a block by its own. The pointer from an arena to its descriptor is the index in `descs`. -/

namespace RecoverOS

/-- `struct arena`; a `desc` of `none` is `NULL`. -/
structure Arena where
  cnt : Nat
  desc : Option Nat

/-- `struct mem_desc`, with the free list as the addresses of the blocks in it. -/
structure MemDesc where
  block_size : Nat
  blocks_per_arena : Nat
  free_list : List Nat

/-- `DESC_CNT`. -/
abbrev DESC_CNT : Nat := 7

/-- `sizeof(struct arena)`. -/
abbrev sizeofArena : Nat := 16

/-- A virtual pool with its heap. -/
structure Heap where
  space : Space
  descs : Nat → MemDesc
  arenas : Nat → Option Arena

namespace Heap

/-! ## The code -/

/-- Run a computation on the pages. -/
def onSpace {α : Type} (m : Prog Space α) : Prog Heap α :=
  Prog.zoom Heap.space (fun space s => { s with space := space }) m

/-- `mem_desc_init`: descriptor `i`. -/
def memDescInit (i : Nat) : MemDesc where
  block_size := 16 * 2 ^ i
  blocks_per_arena := (4096 - sizeofArena) / (16 * 2 ^ i)
  free_list := []

/-- `block2arena`. -/
def block2arena (b : Nat) : Nat := b &&& 0xfffffffffffff000

/-- `arena2block`, for an arena of descriptor `d`. -/
def arena2block (a : Nat) (d : MemDesc) (block_idx : Nat) : Nat := a + sizeofArena + block_idx * d.block_size

/-- The arena at an address. -/
def arenaAt (a : Nat) : Prog Heap Arena := do
  let s ← Prog.get
  Prog.ofOption (s.arenas a)

/-- Store an arena. -/
def setArena (a : Nat) (v : Arena) : Prog Heap Unit :=
  Prog.modify fun s => { s with arenas := Function.update s.arenas a (some v) }

/-- Store an arena in a page that `alloc_pages` returned. With a count of 0 it returns a page that it has not
    taken, and to store there is a page fault. -/
def newArena (a : Nat) (v : Arena) : Prog Heap Unit := do
  let s ← Prog.get
  Prog.require (bitmapRead s.space.vpool.pool_bitmap ((a - s.space.vpool.start) / 4096) = true)
  setArena a v

/-- Store the free list of a descriptor. -/
def setFreeList (desc_idx : Nat) (l : List Nat) : Prog Heap Unit :=
  Prog.modify fun s => { s with
    descs := Function.update s.descs desc_idx { s.descs desc_idx with free_list := l } }

/-- `list_append(&desc->free_list, &b->free_elem)` behind its assertion. -/
def appendBlock (desc_idx b : Nat) : Prog Heap Unit := do
  let s ← Prog.get
  Prog.assert (b ∉ (s.descs desc_idx).free_list)
  setFreeList desc_idx ((s.descs desc_idx).free_list ++ [b])

/-- The loop of `create_free_blocks`: the first `n` blocks. -/
def appendBlocks (desc_idx a : Nat) : Nat → Prog Heap Unit
  | 0 => pure ()
  | n + 1 => do
      appendBlocks desc_idx a n
      let s ← Prog.get
      appendBlock desc_idx (arena2block a (s.descs desc_idx) n)

/-- `create_free_blocks`. -/
def createFreeBlocks (desc_idx : Nat) : Prog Heap Unit := do
  let a ← onSpace (allocPages 1)
  match a with
  | none => Prog.fault .panic
  | some a => do
      let s ← Prog.get
      newArena a ⟨(s.descs desc_idx).blocks_per_arena, some desc_idx⟩
      appendBlocks desc_idx a (s.descs desc_idx).blocks_per_arena

/-- `list_pop` of a free block, and `--a->cnt` in its arena. -/
def popBlock (desc_idx : Nat) : Prog Heap (Option Nat) := do
  let s ← Prog.get
  match (s.descs desc_idx).free_list with
  | [] => Prog.fault .undefined
  | ret :: rest => do
      setFreeList desc_idx rest
      let a ← arenaAt (block2arena ret)
      setArena (block2arena ret) { a with cnt := a.cnt - 1 }
      pure (some ret)

/-- `sys_malloc`; `none` stands for `NULL`. -/
def sysMalloc (size : Nat) : Prog Heap (Option Nat) := do
  if size > 1024 then do
    let pg_cnt := (size + sizeofArena + 4096 - 1) % 2 ^ 64 / 4096
    let a ← onSpace (allocPages pg_cnt)
    match a with
    | none => pure none
    | some a => do
        newArena a ⟨pg_cnt, none⟩
        pure (some (a + sizeofArena))
  else do
    let s ← Prog.get
    let desc_idx ← Prog.ofOption ((List.range DESC_CNT).find? fun i => (s.descs i).block_size ≥ size)
    if (s.descs desc_idx).free_list = [] then do
      createFreeBlocks desc_idx
      popBlock desc_idx
    else popBlock desc_idx

/-- The loop of `sys_free` over the first `n` blocks of an arena. -/
def removeBlocks (desc_idx a : Nat) : Nat → Prog Heap Unit
  | 0 => pure ()
  | n + 1 => do
      removeBlocks desc_idx a n
      let s ← Prog.get
      let b := arena2block a (s.descs desc_idx) n
      Prog.assert (b ∈ (s.descs desc_idx).free_list)
      setFreeList desc_idx ((s.descs desc_idx).free_list.erase b)

/-- The arena goes with its pages. -/
def freeArena (pml4 : Option Nat) (a cnt : Nat) : Prog Heap Unit := do
  Prog.modify fun s => { s with arenas := Function.update s.arenas a none }
  onSpace (freePages pml4 a cnt)

/-- `sys_free`, called by a thread with this `pml4`. -/
def sysFree (pml4 : Option Nat) (ptr : Nat) : Prog Heap Unit := do
  Prog.assert (ptr ≠ 0)
  let a ← arenaAt (block2arena ptr)
  match a.desc with
  | none => freeArena pml4 (block2arena ptr) a.cnt
  | some desc_idx => do
      appendBlock desc_idx ptr
      setArena (block2arena ptr) { a with cnt := a.cnt + 1 }
      let s ← Prog.get
      if a.cnt + 1 = (s.descs desc_idx).blocks_per_arena then do
        removeBlocks desc_idx (block2arena ptr) (s.descs desc_idx).blocks_per_arena
        freeArena pml4 (block2arena ptr) 1

/-! ## The states of the heap -/

/-- The number of pages of an arena. -/
def pages (a : Arena) : Nat := if a.desc = none then a.cnt else 1

/-- Block `b` of descriptor `i` lies in the arena at page `v`. -/
structure InArena (s : Heap) (i v b : Nat) : Prop where
  arena : ∃ a, s.arenas v = some a ∧ a.desc = some i
  block : ∃ k < (s.descs i).blocks_per_arena, b = arena2block v (s.descs i) k

/-- What holds between the calls. -/
structure Ok (s : Heap) : Prop where
  aligned : s.space.vpool.start % 4096 = 0
  fits : s.space.vpool.start + 4096 * s.space.vpool.pool_bitmap.size ≤ 2 ^ 64
  descs : ∀ i, (s.descs i).block_size = 16 * 2 ^ i ∧
    (s.descs i).blocks_per_arena = (4096 - sizeofArena) / (16 * 2 ^ i)
  /-- The pages of an arena are taken. -/
  taken : ∀ v a, s.arenas v = some a → ∃ k, v = k * 4096 + s.space.vpool.start ∧
    k + pages a ≤ s.space.vpool.pool_bitmap.size ∧ 0 < pages a ∧
    ∀ j < pages a, bitmapRead s.space.vpool.pool_bitmap (k + j) = true
  /-- Two arenas share no page. -/
  apart : ∀ v a w c, s.arenas v = some a → s.arenas w = some c → v ≠ w →
    v + 4096 * pages a ≤ w ∨ w + 4096 * pages c ≤ v
  /-- A free block lies in an arena of its descriptor. -/
  free : ∀ i, ∀ b ∈ (s.descs i).free_list, i < DESC_CNT ∧ ∃ v, s.InArena i v b
  nodup : ∀ i, (s.descs i).free_list.Nodup

/-! ## Blocks and pages -/

section Blocks

variable {s s' : Heap} {i v b : Nat}

theorem pages_some {a : Arena} (h : a.desc = some i) : pages a = 1 := by
  unfold pages
  rw [if_neg (by rw [h]; exact Option.some_ne_none i)]

/-- The blocks of an arena lie behind its header, in its page. -/
theorem Ok.inPage (h : s.Ok) (hb : s.InArena i v b) :
    v % 4096 = 0 ∧ v + 16 ≤ b ∧ b + (s.descs i).block_size ≤ v + 4096 ∧ v + 4096 ≤ 2 ^ 64 := by
  obtain ⟨⟨a, ha, hdesc⟩, k, hk, rfl⟩ := hb
  obtain ⟨idx, hv, hin, -⟩ := h.taken v a ha
  have hpages := pages_some hdesc
  have haligned := h.aligned
  have hfits := h.fits
  obtain ⟨-, hbpa⟩ := h.descs i
  have hsize := (h.descs i).1
  rw [← hsize] at hbpa
  have hmul := Nat.div_mul_le_self (4096 - sizeofArena) (s.descs i).block_size
  rw [← hbpa] at hmul
  have hk' := Nat.mul_le_mul_right (s.descs i).block_size (Nat.succ_le_of_lt hk)
  rw [Nat.succ_mul] at hk'
  simp only [sizeofArena] at hmul
  unfold arena2block
  simp only [sizeofArena]
  refine ⟨by omega, by omega, by omega, by omega⟩

/-- `block2arena` leads from a block to its arena. -/
theorem Ok.block2arena (h : s.Ok) (hb : s.InArena i v b) : block2arena b = v := by
  obtain ⟨halign, hlo, hhi, htop⟩ := h.inPage hb
  have hpos : 0 < (s.descs i).block_size := by
    rw [(h.descs i).1]
    exact Nat.mul_pos (by decide) (Nat.two_pow_pos i)
  unfold Heap.block2arena
  rw [and_page_mask (by omega)]
  omega

theorem InArena.congr (hb : s.InArena i v b) (ha : s'.arenas v = s.arenas v)
    (hsize : (s'.descs i).block_size = (s.descs i).block_size)
    (hcnt : (s'.descs i).blocks_per_arena = (s.descs i).blocks_per_arena) : s'.InArena i v b := by
  obtain ⟨harena, k, hk, rfl⟩ := hb
  refine ⟨by rwa [ha], k, by rwa [hcnt], ?_⟩
  unfold arena2block
  rw [hsize]

end Blocks

/-! ## Free lists -/

section FreeLists

variable {s s' : Heap} {i v b n : Nat} {l : List Nat}

/-- The state with another free list. -/
def withFree (s : Heap) (i : Nat) (l : List Nat) : Heap :=
  { s with descs := Function.update s.descs i { s.descs i with free_list := l } }

theorem withFree_size (s : Heap) (i j : Nat) (l : List Nat) :
    ((s.withFree i l).descs j).block_size = (s.descs j).block_size := by
  by_cases hj : j = i
  · subst hj
    simp [withFree]
  · simp [withFree, Function.update_of_ne hj]

theorem withFree_count (s : Heap) (i j : Nat) (l : List Nat) :
    ((s.withFree i l).descs j).blocks_per_arena = (s.descs j).blocks_per_arena := by
  by_cases hj : j = i
  · subst hj
    simp [withFree]
  · simp [withFree, Function.update_of_ne hj]

theorem withFree_self (s : Heap) (i : Nat) (l : List Nat) : ((s.withFree i l).descs i).free_list = l := by
  simp [withFree]

theorem withFree_other (s : Heap) {i j : Nat} (l : List Nat) (hj : j ≠ i) :
    ((s.withFree i l).descs j).free_list = (s.descs j).free_list := by
  simp [withFree, Function.update_of_ne hj]

theorem InArena.withFree (hb : s.InArena i v b) (j : Nat) (l : List Nat) : (s.withFree j l).InArena i v b :=
  hb.congr rfl (withFree_size s j i l) (withFree_count s j i l)

/-- A free list may be given any blocks that lie in arenas of its descriptor. -/
theorem Ok.withFree (h : s.Ok) (hl : ∀ b ∈ l, i < DESC_CNT ∧ ∃ v, s.InArena i v b) (hnodup : l.Nodup) :
    (s.withFree i l).Ok where
  aligned := h.aligned
  fits := h.fits
  descs j := by rw [withFree_size, withFree_count]; exact h.descs j
  taken := h.taken
  apart := h.apart
  free j b hb := by
    by_cases hj : j = i
    · subst hj
      rw [withFree_self] at hb
      obtain ⟨hlt, v, hv⟩ := hl b hb
      exact ⟨hlt, v, hv.withFree j l⟩
    · rw [withFree_other s l hj] at hb
      obtain ⟨hlt, v, hv⟩ := h.free j b hb
      exact ⟨hlt, v, hv.withFree i l⟩
  nodup j := by
    by_cases hj : j = i
    · subst hj
      rwa [withFree_self]
    · rw [withFree_other s l hj]
      exact h.nodup j

/-- `list_append` of a block that is not in the list. -/
theorem Ok.appendBlock {u : Unit} (h : s.Ok) (hi : i < DESC_CNT) (hb : s.InArena i v b)
    (hrun : appendBlock i b s = .ok (u, s')) :
    s'.Ok ∧ s' = s.withFree i ((s.descs i).free_list ++ [b]) := by
  obtain ⟨s1, s2, hget, hrun⟩ := Prog.bind_eq_ok.1 hrun
  obtain ⟨rfl, rfl⟩ := Prog.get_eq_ok.1 hget
  obtain ⟨⟨⟩, s3, hassert, hrun⟩ := Prog.bind_eq_ok.1 hrun
  obtain ⟨hnew, rfl⟩ := Prog.assert_eq_ok.1 hassert
  obtain rfl : s' = s.withFree i ((s.descs i).free_list ++ [b]) := Prog.modify_eq_ok.1 hrun
  refine ⟨h.withFree (fun c hc => ?_) ?_, rfl⟩
  · rcases List.mem_append.1 hc with hc | hc
    · exact h.free i c hc
    · rw [List.mem_singleton.1 hc]
      exact ⟨hi, v, hb⟩
  · exact List.nodup_append.2 ⟨h.nodup i, List.nodup_singleton b, fun c hc d hd => by
      rw [List.mem_singleton.1 hd]
      exact fun heq => hnew (heq ▸ hc)⟩

/-- Only free lists differ. -/
structure Relisted (s s' : Heap) : Prop where
  space : s'.space = s.space
  arenas : s'.arenas = s.arenas
  size : ∀ j, (s'.descs j).block_size = (s.descs j).block_size
  count : ∀ j, (s'.descs j).blocks_per_arena = (s.descs j).blocks_per_arena

theorem Relisted.refl (s : Heap) : Relisted s s := ⟨rfl, rfl, fun _ => rfl, fun _ => rfl⟩

theorem Relisted.withFree (h : Relisted s s') (i : Nat) (l : List Nat) : Relisted s (s'.withFree i l) where
  space := h.space
  arenas := h.arenas
  size j := (withFree_size s' i j l).trans (h.size j)
  count j := (withFree_count s' i j l).trans (h.count j)

theorem Relisted.arena2block (h : Relisted s s') (v i n : Nat) :
    arena2block v (s'.descs i) n = arena2block v (s.descs i) n := by
  unfold Heap.arena2block
  rw [h.size]

/-- The loop that puts the blocks of an arena into the free list. -/
theorem Ok.appendBlocks {u : Unit} (h : s.Ok) (hi : i < DESC_CNT) (hn : n ≤ (s.descs i).blocks_per_arena)
    (hv : ∃ a, s.arenas v = some a ∧ a.desc = some i) (hrun : appendBlocks i v n s = .ok (u, s')) :
    s'.Ok ∧ Relisted s s' ∧ (0 < n → (s'.descs i).free_list ≠ []) := by
  induction n generalizing s' with
  | zero =>
      obtain ⟨-, rfl⟩ := Prog.pure_eq_ok.1 hrun
      exact ⟨h, .refl s, nofun⟩
  | succ n ih =>
      obtain ⟨⟨⟩, s1, hrest, hrun⟩ := Prog.bind_eq_ok.1 hrun
      obtain ⟨hok, hre, -⟩ := ih (by omega) hrest
      obtain ⟨s2, s3, hget, hrun⟩ := Prog.bind_eq_ok.1 hrun
      obtain ⟨rfl, rfl⟩ := Prog.get_eq_ok.1 hget
      have hblock : s1.InArena i v (Heap.arena2block v (s1.descs i) n) :=
        ⟨by rwa [hre.arenas], n, by rw [hre.count]; omega, rfl⟩
      obtain ⟨hok', rfl⟩ := hok.appendBlock hi hblock hrun
      refine ⟨hok', hre.withFree _ _, fun _ => ?_⟩
      rw [withFree_self]
      exact List.append_ne_nil_of_right_ne_nil _ (List.cons_ne_nil _ _)

/-- The loop that takes the blocks of an arena out of the free list again. -/
theorem Ok.removeBlocks {u : Unit} (h : s.Ok) (hrun : removeBlocks i v n s = .ok (u, s')) :
    s'.Ok ∧ Relisted s s' ∧ (∀ k < n, Heap.arena2block v (s.descs i) k ∉ (s'.descs i).free_list) := by
  induction n generalizing s' with
  | zero =>
      obtain ⟨-, rfl⟩ := Prog.pure_eq_ok.1 hrun
      exact ⟨h, .refl s, nofun⟩
  | succ n ih =>
      obtain ⟨⟨⟩, s1, hrest, hrun⟩ := Prog.bind_eq_ok.1 hrun
      obtain ⟨hok, hre, hgone⟩ := ih hrest
      obtain ⟨s2, s3, hget, hrun⟩ := Prog.bind_eq_ok.1 hrun
      obtain ⟨rfl, rfl⟩ := Prog.get_eq_ok.1 hget
      obtain ⟨⟨⟩, s4, hassert, hrun⟩ := Prog.bind_eq_ok.1 hrun
      obtain ⟨-, rfl⟩ := Prog.assert_eq_ok.1 hassert
      obtain rfl : s' = s1.withFree i ((s1.descs i).free_list.erase (Heap.arena2block v (s1.descs i) n)) :=
        Prog.modify_eq_ok.1 hrun
      refine ⟨hok.withFree (fun c hc => hok.free i c (List.mem_of_mem_erase hc)) ((hok.nodup i).erase _),
        hre.withFree _ _, fun k hk hmem => ?_⟩
      rw [withFree_self] at hmem
      by_cases hkn : k = n
      · subst hkn
        rw [hre.arena2block] at hmem
        exact ((hok.nodup i).mem_erase_iff.1 hmem).1 rfl
      · exact hgone k (by omega) (List.mem_of_mem_erase hmem)

end FreeLists

/-! ## Pages -/

section Pages

variable {s s' : Heap} {v cnt : Nat} {a : Arena}

/-- `cnt` pages from `v` on are taken, and no arena has one of them. -/
structure NewRun (s : Heap) (v cnt : Nat) : Prop where
  place : ∃ k, v = k * 4096 + s.space.vpool.start ∧ k + cnt ≤ s.space.vpool.pool_bitmap.size ∧ 0 < cnt ∧
    ∀ j < cnt, bitmapRead s.space.vpool.pool_bitmap (k + j) = true
  apart : ∀ w c, s.arenas w = some c → v + 4096 * cnt ≤ w ∨ w + 4096 * pages c ≤ v

/-- `alloc_pages` returns pages that no arena has. -/
theorem Ok.allocPages {r : Option Nat} (h : s.Ok) (hcnt : 0 < cnt)
    (hrun : onSpace (RecoverOS.allocPages cnt) s = .ok (r, s')) :
    s'.Ok ∧ s'.descs = s.descs ∧ s'.arenas = s.arenas ∧ ∀ v, r = some v → s'.NewRun v cnt := by
  obtain ⟨space, halloc, rfl⟩ := Prog.zoom_eq_ok.1 hrun
  obtain ⟨rfl, -, rfl⟩ | ⟨k, hv, hin, hpool, hclear⟩ := Space.allocPages_cases halloc hcnt
  · exact ⟨h, rfl, rfl, nofun⟩
  · have hstart : space.vpool.start = s.space.vpool.start := by rw [hpool]
    have hbits : space.vpool.pool_bitmap = bitmapSetRun s.space.vpool.pool_bitmap k true cnt := by rw [hpool]
    have hsize : space.vpool.pool_bitmap.size = s.space.vpool.pool_bitmap.size := by
      rw [hbits, bitmapSetRun_size]
    have hok : Ok { s with space := space } := {
      aligned := by rw [hstart]; exact h.aligned
      fits := by rw [hstart, hsize]; exact h.fits
      descs := h.descs
      taken := fun w c hw => by
        obtain ⟨l, hl, hlin, hpos, hset⟩ := h.taken w c hw
        refine ⟨l, by rw [hstart]; exact hl, by rw [hsize]; exact hlin, hpos, fun j hj => ?_⟩
        rw [hbits]
        exact bitmapSetRun_keeps _ k cnt (hset j hj)
      apart := h.apart
      free := fun i b hb => by
        obtain ⟨hi, w, hw⟩ := h.free i b hb
        exact ⟨hi, w, hw.congr rfl rfl rfl⟩
      nodup := h.nodup }
    refine ⟨hok, rfl, rfl, fun v hr => ⟨⟨k, by rw [hstart]; exact hv v hr, by rw [hsize]; exact hin, hcnt, ?_⟩, ?_⟩⟩
    · intro j hj
      rw [hbits]
      exact bitmapSetRun_read _ k cnt hj
    · intro w c hw
      obtain ⟨l, hl, -, hpos, hset⟩ := h.taken w c hw
      have hvk := hv v hr
      by_contra hover
      rw [not_or] at hover
      -- a page of both runs is clear and set
      have hboth : bitmapRead s.space.vpool.pool_bitmap (max k l) = false := by
        have hj := hclear (max k l - k) (by omega)
        rwa [show k + (max k l - k) = max k l by omega] at hj
      have hj := hset (max k l - l) (by omega)
      rw [show l + (max k l - l) = max k l by omega, hboth] at hj
      cases hj

/-- The state with another arena. -/
def withArena (s : Heap) (v : Nat) (a : Arena) : Heap :=
  { s with arenas := Function.update s.arenas v (some a) }

theorem withArena_self (s : Heap) (v : Nat) (a : Arena) : (s.withArena v a).arenas v = some a := by
  simp [withArena]

theorem withArena_other (s : Heap) {v w : Nat} (a : Arena) (h : w ≠ v) :
    (s.withArena v a).arenas w = s.arenas w := by
  simp [withArena, Function.update_of_ne h]

/-- An arena whose pages are taken, and whose free blocks are in the list of its descriptor. -/
theorem Ok.withArena (h : s.Ok) (hnew : ∃ k, v = k * 4096 + s.space.vpool.start ∧
      k + pages a ≤ s.space.vpool.pool_bitmap.size ∧ 0 < pages a ∧
      ∀ j < pages a, bitmapRead s.space.vpool.pool_bitmap (k + j) = true)
    (hapart : ∀ w c, s.arenas w = some c → v ≠ w → v + 4096 * pages a ≤ w ∨ w + 4096 * pages c ≤ v)
    (hfree : ∀ i, ∀ b ∈ (s.descs i).free_list, s.InArena i v b → a.desc = some i) :
    (s.withArena v a).Ok where
  aligned := h.aligned
  fits := h.fits
  descs := h.descs
  taken w c hw := by
    by_cases hwv : w = v
    · subst hwv
      obtain rfl : a = c := Option.some.inj ((withArena_self s w a).symm.trans hw)
      exact hnew
    · exact h.taken w c ((withArena_other s a hwv).symm.trans hw)
  apart w c w' c' hw hw' hne := by
    have hold : ∀ {x d}, x ≠ v → (s.withArena v a).arenas x = some d → s.arenas x = some d := fun hx hd =>
      (withArena_other s a hx).symm.trans hd
    have hself : ∀ {d}, (s.withArena v a).arenas v = some d → a = d := fun hd =>
      Option.some.inj ((withArena_self s v a).symm.trans hd)
    by_cases hwv : w = v
    · subst hwv
      obtain rfl := hself hw
      exact hapart w' c' (hold (Ne.symm hne) hw') hne
    · by_cases hwv' : w' = v
      · subst hwv'
        obtain rfl := hself hw'
        exact (hapart w c (hold hwv hw) (Ne.symm hwv)).symm
      · exact h.apart w c w' c' (hold hwv hw) (hold hwv' hw') hne
  free i b hb := by
    obtain ⟨hi, w, hw⟩ := h.free i b hb
    refine ⟨hi, w, ?_, hw.block⟩
    by_cases hwv : w = v
    · subst hwv
      exact ⟨a, withArena_self s w a, hfree i b hb hw⟩
    · obtain ⟨c, hc, hd⟩ := hw.arena
      exact ⟨c, (withArena_other s a hwv).trans hc, hd⟩
  nodup := h.nodup

/-- An arena in front of new pages. -/
theorem Ok.newArena {u : Unit} (h : s.Ok) (hnew : s.NewRun v cnt) (hpages : pages a = cnt)
    (hrun : newArena v a s = .ok (u, s')) : s'.Ok ∧ s' = s.withArena v a := by
  obtain ⟨s1, s2, hget, hrun⟩ := Prog.bind_eq_ok.1 hrun
  obtain ⟨rfl, rfl⟩ := Prog.get_eq_ok.1 hget
  obtain ⟨⟨⟩, s3, hreq, hrun⟩ := Prog.bind_eq_ok.1 hrun
  obtain ⟨-, rfl⟩ := Prog.require_eq_ok.1 hreq
  obtain rfl : s' = s.withArena v a := Prog.modify_eq_ok.1 hrun
  subst hpages
  refine ⟨h.withArena hnew.place (fun w c hw _ => hnew.apart w c hw) fun i b _ hb => ?_, rfl⟩
  obtain ⟨c, hc, hd⟩ := hb.arena
  obtain ⟨k, -, -, hpos, -⟩ := hnew.place
  have hone := pages_some hd
  have happart := hnew.apart v c hc
  omega

/-- The count of an arena changes. -/
theorem Ok.setCount (h : s.Ok) {i n : Nat} (ha : s.arenas v = some ⟨n, some i⟩) (n' : Nat) :
    (s.withArena v ⟨n', some i⟩).Ok := by
  have hpages : pages ⟨n', some i⟩ = pages ⟨n, some i⟩ := rfl
  refine h.withArena ?_ (fun w c hw hne => ?_) fun j b _ hb => ?_
  · rw [hpages]
    exact h.taken v _ ha
  · rw [hpages]
    exact h.apart v _ w c ha hw hne
  · obtain ⟨c, hc, hdc⟩ := hb.arena
    rw [ha] at hc
    cases hc
    exact hdc

end Pages

/-! ## Giving pages back -/

section Free

variable {s s' : Heap} {v cnt : Nat} {a : Arena}

/-- `bitmap_free` changes no bit outside the run. -/
theorem bitmapFreeFrom_others {b b' : Bitmap} {idx n i : Nat} {u : Unit}
    (h : bitmapFreeFrom idx n i b = .ok (u, b')) :
    b'.size = b.size ∧ ∀ k, k < idx + i ∨ idx + i + n ≤ k → bitmapRead b' k = bitmapRead b k := by
  induction n generalizing i b with
  | zero =>
      obtain ⟨-, rfl⟩ := Prog.pure_eq_ok.1 h
      exact ⟨rfl, fun _ _ => rfl⟩
  | succ n ih =>
      obtain ⟨b1, b2, hget, h⟩ := Prog.bind_eq_ok.1 h
      obtain ⟨rfl, rfl⟩ := Prog.get_eq_ok.1 hget
      obtain ⟨⟨⟩, b3, hreq, h⟩ := Prog.bind_eq_ok.1 h
      obtain ⟨-, rfl⟩ := Prog.require_eq_ok.1 hreq
      obtain ⟨⟨⟩, b4, hassert, h⟩ := Prog.bind_eq_ok.1 h
      obtain ⟨-, rfl⟩ := Prog.assert_eq_ok.1 hassert
      obtain ⟨⟨⟩, b5, hset, h⟩ := Prog.bind_eq_ok.1 h
      obtain rfl := Prog.modify_eq_ok.1 hset
      obtain ⟨hsize, hothers⟩ := ih h
      refine ⟨hsize.trans (bitmapSet_size _ _ _), fun k hk => ?_⟩
      rw [hothers k (by omega), bitmapRead_bitmapSet_of_ne _ _ (by omega)]

/-- The pages of an arena are given back; none of its blocks is free any more. -/
theorem Ok.freeArena {pml4 : Option Nat} {u : Unit} (h : s.Ok) (ha : s.arenas v = some a)
    (hcnt : cnt = pages a) (hfree : ∀ i, ∀ b ∈ (s.descs i).free_list, ¬ s.InArena i v b)
    (hrun : freeArena pml4 v cnt s = .ok (u, s')) : s'.Ok := by
  obtain ⟨⟨⟩, s1, hdrop, hrun⟩ := Prog.bind_eq_ok.1 hrun
  obtain rfl := Prog.modify_eq_ok.1 hdrop
  obtain ⟨space, hpages, rfl⟩ := Prog.zoom_eq_ok.1 hrun
  obtain ⟨⟨⟩, sp1, hmem, hpool⟩ := Prog.bind_eq_ok.1 hpages
  obtain ⟨mem, -, rfl⟩ := Prog.zoom_eq_ok.1 hmem
  obtain ⟨sp2, sp3, hget, hpool⟩ := Prog.bind_eq_ok.1 hpool
  obtain ⟨rfl, rfl⟩ := Prog.get_eq_ok.1 hget
  obtain ⟨b, hbits, rfl⟩ := Prog.zoom_eq_ok.1 hpool
  obtain ⟨hsize, hothers⟩ := bitmapFreeFrom_others hbits
  obtain ⟨k, hv, hin, hpos, -⟩ := h.taken v a ha
  have hfits := h.fits
  have hidx : (v + 2 ^ 64 - s.space.vpool.start) % 2 ^ 64 / 4096 = k := by omega
  have hold : ∀ {w c}, Function.update s.arenas v none w = some c → w ≠ v ∧ s.arenas w = some c := by
    intro w c hw
    by_cases hwv : w = v
    · rw [hwv, Function.update_self] at hw
      cases hw
    · exact ⟨hwv, (Function.update_of_ne hwv none s.arenas).symm.trans hw⟩
  exact {
    aligned := h.aligned
    fits := by
      change _ + 4096 * b.size ≤ _
      rw [hsize]
      exact hfits
    descs := h.descs
    taken := fun w c hw => by
      obtain ⟨hne, hw⟩ := hold hw
      obtain ⟨l, hl, hlin, hlpos, hset⟩ := h.taken w c hw
      refine ⟨l, hl, by change _ ≤ b.size; rw [hsize]; exact hlin, hlpos, fun j hj => ?_⟩
      have hapart := h.apart w c v a hw ha hne
      change bitmapRead b (l + j) = true
      rw [hothers (l + j) (by rw [hidx]; omega)]
      exact hset j hj
    apart := fun w c w' c' hw hw' hne => h.apart w c w' c' (hold hw).2 (hold hw').2 hne
    free := fun i b' hb => by
      obtain ⟨hi, w, hw⟩ := h.free i b' hb
      have hne : w ≠ v := fun heq => hfree i b' hb (heq ▸ hw)
      exact ⟨hi, w, hw.congr (Function.update_of_ne hne none s.arenas) rfl rfl⟩
    nodup := h.nodup }

end Free

/-! ## The calls -/

section Calls

variable {s s' : Heap} {p size : Nat}

/-- What was set aside for a pointer holds `size` bytes from it on: the block up to its end, or the pages behind
    the header of the arena. -/
def LargeEnough (s : Heap) (size p : Nat) : Prop :=
  ∃ a, s.arenas (block2arena p) = some a ∧
    match a.desc with
    | some i => size ≤ (s.descs i).block_size ∧ p + (s.descs i).block_size ≤ block2arena p + 4096
    | none => p = block2arena p + sizeofArena ∧ size + sizeofArena ≤ a.cnt * 4096

/-- `create_free_blocks`. -/
theorem Ok.createFreeBlocks {i : Nat} {u : Unit} (h : s.Ok) (hi : i < DESC_CNT)
    (hrun : createFreeBlocks i s = .ok (u, s')) : s'.Ok ∧ (∀ j, (s'.descs j).block_size = (s.descs j).block_size) := by
  obtain ⟨r, s1, halloc, hrun⟩ := Prog.bind_eq_ok.1 hrun
  obtain ⟨h1, hdescs, -, hnew⟩ := h.allocPages Nat.one_pos halloc
  cases r with
  | none => cases hrun
  | some v =>
      obtain ⟨s2, s3, hget, hrun⟩ := Prog.bind_eq_ok.1 hrun
      obtain ⟨rfl, rfl⟩ := Prog.get_eq_ok.1 hget
      obtain ⟨⟨⟩, s4, hstore, hrun⟩ := Prog.bind_eq_ok.1 hrun
      obtain ⟨h2, rfl⟩ := h1.newArena (hnew v rfl) (pages_some (i := i) rfl) hstore
      obtain ⟨h3, hre, -⟩ := h2.appendBlocks hi (Nat.le_refl _) ⟨_, withArena_self _ _ _, rfl⟩ hrun
      refine ⟨h3, fun j => ?_⟩
      rw [hre.size j, ← hdescs]
      rfl

/-- Asked for no page, `bitmap_alloc` returns a bit that is clear and stays so. -/
theorem bitmapAllocFrom_zero {b t : Bitmap} {n i : Nat} {r : Option Nat}
    (h : bitmapAllocFrom b 0 n i b = .ok (r, t)) : t = b ∧ ∀ k, r = some k → bitmapRead b k = false := by
  induction n generalizing i with
  | zero =>
      cases h
      exact ⟨rfl, nofun⟩
  | succ n ih =>
      rw [bitmapAllocFrom] at h
      split at h
      · split at h
        · next hclear =>
            cases h
            exact ⟨rfl, fun k hk => by cases hk; exact hclear⟩
        · exact ih h
      · cases h
        exact ⟨rfl, nofun⟩

/-- A count of 0 pages ends in a page fault. -/
theorem Ok.allocPages_zero {r : Option Nat} (h : s.Ok) (hrun : onSpace (RecoverOS.allocPages 0) s = .ok (r, s')) :
    s'.Ok ∧ ∀ v, r = some v → ∀ a u t, Heap.newArena v a s' ≠ .ok (u, t) := by
  obtain ⟨space, halloc, rfl⟩ := Prog.zoom_eq_ok.1 hrun
  obtain ⟨vaddr, s1, hv, halloc⟩ := Prog.bind_eq_ok.1 halloc
  obtain ⟨idx, s2, hidx, hv⟩ := Prog.bind_eq_ok.1 hv
  obtain ⟨b, hb, rfl⟩ := Prog.zoom_eq_ok.1 hidx
  obtain ⟨s3, s4, hget, hv⟩ := Prog.bind_eq_ok.1 hv
  obtain ⟨rfl, rfl⟩ := Prog.get_eq_ok.1 hget
  obtain ⟨rfl, rfl⟩ := Prog.pure_eq_ok.1 hv
  obtain ⟨rfl, hclear⟩ := bitmapAllocFrom_zero hb
  cases idx with
  | none =>
      obtain ⟨rfl, rfl⟩ := Prog.pure_eq_ok.1 halloc
      exact ⟨h, nofun⟩
  | some k =>
      obtain ⟨ok, s5, hmem, halloc⟩ := Prog.bind_eq_ok.1 halloc
      obtain ⟨rfl, rfl⟩ := Prog.pure_eq_ok.1 halloc
      obtain ⟨mem, hfrom, rfl⟩ := Prog.zoom_eq_ok.1 hmem
      obtain ⟨rfl, rfl⟩ := Prog.pure_eq_ok.1 hfrom
      refine ⟨h, fun v hv a u t hnew => ?_⟩
      obtain rfl : k * 4096 + s.space.vpool.start = v := Option.some.inj hv
      obtain ⟨s6, s7, hget, hnew⟩ := Prog.bind_eq_ok.1 hnew
      obtain ⟨rfl, rfl⟩ := Prog.get_eq_ok.1 hget
      obtain ⟨⟨⟩, s8, hreq, -⟩ := Prog.bind_eq_ok.1 hnew
      obtain ⟨hset, -⟩ := Prog.require_eq_ok.1 hreq
      have hk : (k * 4096 + s.space.vpool.start - s.space.vpool.start) / 4096 = k := by omega
      change bitmapRead s.space.vpool.pool_bitmap
        ((k * 4096 + s.space.vpool.start - s.space.vpool.start) / 4096) = true at hset
      rw [hk, hclear k rfl] at hset
      cases hset

/-- A block that is popped is as large as its descriptor says, and belongs to it. -/
theorem Ok.popBlock {i : Nat} {r : Option Nat} (h : s.Ok) (hle : size ≤ (s.descs i).block_size)
    (hrun : popBlock i s = .ok (r, s')) : s'.Ok ∧ ∀ p, r = some p → s'.LargeEnough size p := by
  obtain ⟨s5, s6, hget, hrun⟩ := Prog.bind_eq_ok.1 hrun
  obtain ⟨rfl, rfl⟩ := Prog.get_eq_ok.1 hget
  cases hlist : (s.descs i).free_list with
  | nil =>
      rw [hlist] at hrun
      cases hrun
  | cons ret rest =>
      rw [hlist] at hrun
      have hmem : ret ∈ (s.descs i).free_list := hlist ▸ List.mem_cons_self
      obtain ⟨-, v, hv⟩ := h.free i ret hmem
      have hpage := h.block2arena hv
      obtain ⟨⟨n, d⟩, ha, hd⟩ := hv.arena
      cases hd
      obtain ⟨-, -, hend, -⟩ := h.inPage hv
      have hnodup := h.nodup i
      rw [hlist] at hnodup
      have h5 := h.withFree (i := i) (l := rest)
        (fun b hb => h.free i b (hlist ▸ List.mem_cons_of_mem _ hb)) (List.nodup_cons.1 hnodup).2
      obtain ⟨⟨⟩, s7, hpop, hrun⟩ := Prog.bind_eq_ok.1 hrun
      obtain rfl : s7 = s.withFree i rest := Prog.modify_eq_ok.1 hpop
      obtain ⟨c, s8, harena, hrun⟩ := Prog.bind_eq_ok.1 hrun
      obtain ⟨s9, s10, hget, harena⟩ := Prog.bind_eq_ok.1 harena
      obtain ⟨rfl, rfl⟩ := Prog.get_eq_ok.1 hget
      obtain ⟨hc, rfl⟩ := Prog.ofOption_eq_ok.1 harena
      obtain ⟨⟨⟩, s11, hstore, hrun⟩ := Prog.bind_eq_ok.1 hrun
      obtain ⟨rfl, rfl⟩ := Prog.pure_eq_ok.1 hrun
      rw [hpage] at hc hstore
      obtain rfl : ⟨n, some i⟩ = c := Option.some.inj (ha.symm.trans hc)
      obtain rfl : s11 = (s.withFree i rest).withArena v ⟨n - 1, some i⟩ := Prog.modify_eq_ok.1 hstore
      refine ⟨h5.setCount hc (n - 1), fun p hp => ?_⟩
      obtain rfl : ret = p := Option.some.inj hp
      refine ⟨⟨n - 1, some i⟩, ?_, ?_⟩
      · rw [hpage]
        exact withArena_self _ _ _
      · have hbs : (((s.withFree i rest).withArena v ⟨n - 1, some i⟩).descs i).block_size =
            (s.descs i).block_size := withFree_size s i i rest
        dsimp only
        rw [hbs, hpage]
        exact ⟨hle, hend⟩

/-- `sys_malloc` keeps the heap, and what it returns is large enough exactly when the size and the rounding fit
    64 bits. -/
theorem Ok.sysMalloc {r : Option Nat} (h : s.Ok) (hsize : size < 2 ^ 64)
    (hrun : sysMalloc size s = .ok (r, s')) :
    s'.Ok ∧ ∀ p, r = some p → (s'.LargeEnough size p ↔ size + 4111 < 2 ^ 64) := by
  unfold Heap.sysMalloc at hrun
  split at hrun
  · next hlarge =>
      obtain ⟨a, s1, halloc, hrun⟩ := Prog.bind_eq_ok.1 hrun
      simp only [sizeofArena] at halloc hrun
      generalize hpg : (size + 16 + 4096 - 1) % 2 ^ 64 / 4096 = pg_cnt at halloc hrun
      by_cases hzero : pg_cnt = 0
      · subst hzero
        obtain ⟨h1, hfault⟩ := h.allocPages_zero halloc
        cases a with
        | none =>
            obtain ⟨rfl, rfl⟩ := Prog.pure_eq_ok.1 hrun
            exact ⟨h1, nofun⟩
        | some v =>
            obtain ⟨⟨⟩, s2, hstore, -⟩ := Prog.bind_eq_ok.1 hrun
            exact absurd hstore (hfault v rfl _ _ _)
      · have hpos : 0 < pg_cnt := Nat.pos_of_ne_zero hzero
        obtain ⟨h1, -, -, hnew⟩ := h.allocPages hpos halloc
        cases a with
        | none =>
            obtain ⟨rfl, rfl⟩ := Prog.pure_eq_ok.1 hrun
            exact ⟨h1, nofun⟩
        | some v =>
            obtain ⟨⟨⟩, s2, hstore, hrun⟩ := Prog.bind_eq_ok.1 hrun
            obtain ⟨rfl, rfl⟩ := Prog.pure_eq_ok.1 hrun
            have hpages : pages ⟨pg_cnt, none⟩ = pg_cnt := if_pos rfl
            obtain ⟨h2, rfl⟩ := h1.newArena (hnew v rfl) hpages hstore
            refine ⟨h2, fun p hp => ?_⟩
            obtain rfl : v + 16 = p := Option.some.inj hp
            obtain ⟨k, hv, hin, -⟩ := (hnew v rfl).place
            have haligned := h1.aligned
            have hfits := h1.fits
            have hpage : Heap.block2arena (v + 16) = v := by
              unfold Heap.block2arena
              rw [and_page_mask (by omega)]
              omega
            unfold LargeEnough
            rw [hpage]
            constructor
            · rintro ⟨c, hc, hsize'⟩
              rw [withArena_self] at hc
              cases hc
              obtain ⟨-, hle⟩ := hsize'
              simp only [sizeofArena] at hle
              omega
            · intro hno
              refine ⟨_, withArena_self _ _ _, rfl, ?_⟩
              simp only [sizeofArena]
              omega
  · next hsmall =>
      obtain ⟨s1, s2, hget, hrun⟩ := Prog.bind_eq_ok.1 hrun
      obtain ⟨rfl, rfl⟩ := Prog.get_eq_ok.1 hget
      obtain ⟨i, s3, hclass, hrun⟩ := Prog.bind_eq_ok.1 hrun
      obtain ⟨hfind, rfl⟩ := Prog.ofOption_eq_ok.1 hclass
      have hi := List.mem_range.1 (List.mem_of_find?_eq_some hfind)
      have hle : size ≤ (s.descs i).block_size := by simpa using List.find?_some hfind
      have hsmall' : size + 4111 < 2 ^ 64 := by omega
      split at hrun
      · obtain ⟨⟨⟩, s4, hfill, hrun⟩ := Prog.bind_eq_ok.1 hrun
        obtain ⟨h4, hsizes⟩ := h.createFreeBlocks hi hfill
        have hle4 : size ≤ (s4.descs i).block_size := by rwa [hsizes]
        obtain ⟨h5, hpop⟩ := h4.popBlock hle4 hrun
        exact ⟨h5, fun p hp => iff_of_true (hpop p hp) hsmall'⟩
      · obtain ⟨h5, hpop⟩ := h.popBlock hle hrun
        exact ⟨h5, fun p hp => iff_of_true (hpop p hp) hsmall'⟩

/-- The pointers that `sys_free` may be given: the first byte behind the header of large pages, or a block. -/
def Valid (s : Heap) (ptr : Nat) : Prop :=
  (∃ v a, s.arenas v = some a ∧ a.desc = none ∧ ptr = v + sizeofArena) ∨
    ∃ i < DESC_CNT, ∃ v, s.InArena i v ptr

/-- `sys_free` keeps the heap. -/
theorem Ok.sysFree {pml4 : Option Nat} {u : Unit} (h : s.Ok) (hptr : s.Valid p)
    (hrun : sysFree pml4 p s = .ok (u, s')) : s'.Ok := by
  obtain ⟨⟨⟩, s1, hassert, hrun⟩ := Prog.bind_eq_ok.1 hrun
  obtain ⟨-, rfl⟩ := Prog.assert_eq_ok.1 hassert
  obtain ⟨a, s2, harena, hrun⟩ := Prog.bind_eq_ok.1 hrun
  obtain ⟨s3, s4, hget, harena⟩ := Prog.bind_eq_ok.1 harena
  obtain ⟨rfl, rfl⟩ := Prog.get_eq_ok.1 hget
  obtain ⟨ha, rfl⟩ := Prog.ofOption_eq_ok.1 harena
  rcases hptr with ⟨v, c, hc, hnull, rfl⟩ | ⟨i, hi, v, hv⟩
  · obtain ⟨k, hvk, hin, hpos, -⟩ := h.taken v c hc
    have haligned := h.aligned
    have hfits := h.fits
    have hpage : Heap.block2arena (v + sizeofArena) = v := by
      unfold Heap.block2arena
      simp only [sizeofArena]
      rw [and_page_mask (by omega)]
      omega
    rw [hpage] at ha hrun
    obtain rfl : c = a := Option.some.inj (hc.symm.trans ha)
    rw [hnull] at hrun
    refine h.freeArena hc (if_pos hnull).symm (fun i b _ hb => ?_) hrun
    obtain ⟨c', hc', hd⟩ := hb.arena
    rw [hc] at hc'
    cases hc'
    rw [hnull] at hd
    cases hd
  · have hpage := h.block2arena hv
    rw [hpage] at ha hrun
    obtain ⟨⟨n, d⟩, hc, hd⟩ := hv.arena
    cases hd
    obtain rfl : ⟨n, some i⟩ = a := Option.some.inj (hc.symm.trans ha)
    obtain ⟨⟨⟩, s5, happend, hrun⟩ := Prog.bind_eq_ok.1 hrun
    obtain ⟨h5, rfl⟩ := h.appendBlock hi hv happend
    obtain ⟨⟨⟩, s6, hstore, hrun⟩ := Prog.bind_eq_ok.1 hrun
    obtain rfl : s6 = (s.withFree i ((s.descs i).free_list ++ [p])).withArena v ⟨n + 1, some i⟩ :=
      Prog.modify_eq_ok.1 hstore
    have h6 := h5.setCount hc (n + 1)
    obtain ⟨s7, s8, hget, hrun⟩ := Prog.bind_eq_ok.1 hrun
    obtain ⟨rfl, rfl⟩ := Prog.get_eq_ok.1 hget
    split at hrun
    · obtain ⟨⟨⟩, s9, hremove, hrun⟩ := Prog.bind_eq_ok.1 hrun
      obtain ⟨h9, hre, hgone⟩ := h6.removeBlocks hremove
      have ha9 : s9.arenas v = some ⟨n + 1, some i⟩ := by
        rw [hre.arenas]
        exact withArena_self _ _ _
      refine h9.freeArena ha9 rfl (fun j b hmem hb => ?_) hrun
      obtain ⟨c', hc', hd'⟩ := hb.arena
      rw [ha9] at hc'
      cases hc'
      obtain rfl : i = j := Option.some.inj hd'
      obtain ⟨k, hk, rfl⟩ := hb.block
      rw [hre.count] at hk
      rw [hre.arena2block] at hmem
      exact hgone k hk hmem
    · obtain ⟨-, rfl⟩ := Prog.pure_eq_ok.1 hrun
      exact h6

end Calls

/-! ## The heap in use -/

/-- A pool whose heap was set up by `mem_desc_init`. -/
structure Init (s : Heap) : Prop where
  aligned : s.space.vpool.start % 4096 = 0
  fits : s.space.vpool.start + 4096 * s.space.vpool.pool_bitmap.size ≤ 2 ^ 64
  descs : ∀ i, s.descs i = memDescInit i
  arenas : ∀ v, s.arenas v = none

theorem Init.ok {s : Heap} (h : s.Init) : s.Ok where
  aligned := h.aligned
  fits := h.fits
  descs i := by
    rw [h.descs i]
    exact ⟨rfl, rfl⟩
  taken v a ha := by
    rw [h.arenas v] at ha
    cases ha
  apart v a w c ha := by
    rw [h.arenas v] at ha
    cases ha
  free i b hb := by
    rw [h.descs i] at hb
    cases hb
  nodup i := by
    rw [h.descs i]
    exact List.nodup_nil

/-- A call. -/
inductive Call where
  | malloc (size : Nat)
  | free (pml4 : Option Nat) (ptr : Nat)

/-- One call that returns. `size` is a `size_t`; what is freed is a block or a run of pages. -/
inductive Step (s : Heap) : Call → Heap → Prop where
  | malloc {size : Nat} {r : Option Nat} {s' : Heap} (hsize : size < 2 ^ 64)
      (hrun : sysMalloc size s = .ok (r, s')) : Step s (.malloc size) s'
  | free {pml4 : Option Nat} {ptr : Nat} {s' : Heap} (hptr : s.Valid ptr)
      (hrun : sysFree pml4 ptr s = .ok ((), s')) : Step s (.free pml4 ptr) s'

theorem Ok.step {s s' : Heap} {c : Call} (h : s.Ok) (hstep : Step s c s') : s'.Ok := by
  cases hstep with
  | malloc hsize hrun => exact (h.sysMalloc hsize hrun).1
  | free hptr hrun => exact h.sysFree hptr hrun

/-- After any calls a block that `sys_malloc` returns holds as many bytes as were asked for exactly when the
    size can be rounded up to pages without wrapping. -/
theorem large_enough_iff {s0 s s' : Heap} {cs : List Call} {size p : Nat} (h0 : s0.Init)
    (hreach : Run Step s0 cs s) (hsize : size < 2 ^ 64) (hrun : sysMalloc size s = .ok (some p, s')) :
    s'.LargeEnough size p ↔ size + 4111 < 2 ^ 64 := by
  have h := hreach.invariant (fun _ _ _ hI hstep => hI.step hstep) h0.ok
  exact (h.sysMalloc hsize hrun).2 p rfl

/-- `k_v_pool` after `mem_init`. -/
def kernelHeap : Heap where
  space := Space.kernelPool
  descs := memDescInit
  arenas := fun _ => none

theorem kernelHeap_init : kernelHeap.Init :=
  ⟨by decide, by decide, fun _ => rfl, fun _ => rfl⟩

/-- `sys_malloc` of the largest size there is: the sum wraps, and one page is enough for it. -/
theorem kernelHeap_malloc : ∃ s', sysMalloc (2 ^ 64 - 1) kernelHeap = .ok (some 0xffff800000100010, s') := by
  have halloc : ∃ k', allocPages 1 kernelHeap.space = .ok (some 0xffff800000100000, k') ∧
      bitmapRead k'.vpool.pool_bitmap ((0xffff800000100000 - k'.vpool.start) / 4096) = true := ⟨_, rfl, by decide⟩
  obtain ⟨k', h, hset⟩ := halloc
  have hpg : (2 ^ 64 - 1 + sizeofArena + 4096 - 1) % 2 ^ 64 / 4096 = 1 := by decide
  have hrun : onSpace (allocPages 1) kernelHeap =
      .ok (some 0xffff800000100000, { kernelHeap with space := k' }) := Prog.zoom_eq_ok.2 ⟨k', h, rfl⟩
  have hstore : newArena 0xffff800000100000 ⟨1, none⟩ { kernelHeap with space := k' } =
      .ok ((), { kernelHeap with space := k' }.withArena 0xffff800000100000 ⟨1, none⟩) :=
    Prog.run_require_bind hset _ _
  unfold sysMalloc
  rw [if_pos (by decide), hpg, Prog.bind_of_ok hrun]
  dsimp only
  rw [Prog.bind_of_ok hstore]
  exact ⟨_, rfl⟩

theorem large_enough_kernelHeap : ∃ s', sysMalloc (2 ^ 64 - 1) kernelHeap = .ok (some 0xffff800000100010, s') ∧
    (s'.LargeEnough (2 ^ 64 - 1) 0xffff800000100010 ↔ 2 ^ 64 - 1 + 4111 < 2 ^ 64) := by
  obtain ⟨s', h⟩ := kernelHeap_malloc
  exact ⟨s', h, large_enough_iff kernelHeap_init .nil (by decide) h⟩

/-- It is not. -/
theorem not_large_enough_kernelHeap :
    ∃ s', sysMalloc (2 ^ 64 - 1) kernelHeap = .ok (some 0xffff800000100010, s') ∧
      ¬ s'.LargeEnough (2 ^ 64 - 1) 0xffff800000100010 := by
  obtain ⟨s', h⟩ := kernelHeap_malloc
  refine ⟨s', h, fun hlarge => ?_⟩
  exact absurd (((kernelHeap_init.ok.sysMalloc (by decide) h).2 _ rfl).1 hlarge) (by decide)

end Heap

end RecoverOS
