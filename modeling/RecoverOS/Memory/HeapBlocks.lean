import RecoverOS.Memory.Heap

set_option autoImplicit false

/-! # The blocks of the heap are accounted for (`kernel/memory.c`)

The heap together with what its users know: the pointers that `sys_malloc` returned and that were not passed to
`sys_free` since, and the runs of pages that the heap has from `alloc_pages`. -/

namespace RecoverOS

namespace Heap

/-! ## What the heap is used for -/

/-- The number of pages that `sys_malloc` asks `alloc_pages` for, if it does. -/
def pagesAsked (size : Nat) (s : Heap) : Option Nat :=
  if size > 1024 then some ((size + sizeofArena + 4096 - 1) % 2 ^ 64 / 4096)
  else
    match (List.range DESC_CNT).find? fun i => (s.descs i).block_size ≥ size with
    | none => none
    | some desc_idx => if (s.descs desc_idx).free_list = [] then some 1 else none

/-- The run of pages that `sys_malloc` gets from `alloc_pages`: its address and its length. -/
def mallocRun (size : Nat) (s : Heap) : Option (Nat × Nat) :=
  (pagesAsked size s).bind fun cnt =>
    match allocPages cnt s.space with
    | .ok (some a, _) => some (a, cnt)
    | _ => none

/-- The run of pages that `sys_free` passes to `free_pages`. -/
def freeRun (ptr : Nat) (s : Heap) : Option (Nat × Nat) :=
  (s.arenas (block2arena ptr)).bind fun a =>
    match a.desc with
    | none => some (block2arena ptr, a.cnt)
    | some desc_idx =>
        if a.cnt + 1 = (s.descs desc_idx).blocks_per_arena then some (block2arena ptr, 1) else none

/-- A heap with the pointers in use and the runs of pages it has. -/
structure Used where
  heap : Heap
  live : List Nat
  runs : List (Nat × Nat)

/-- One call that returns. What is freed is in use. -/
inductive Used.Step (u : Used) : Call → Used → Prop where
  | malloc {size : Nat} {r : Option Nat} {s' : Heap} (hsize : size < 2 ^ 63)
      (hrun : sysMalloc size u.heap = .ok (r, s')) :
      Used.Step u (.malloc size) ⟨s', r.toList ++ u.live, (mallocRun size u.heap).toList ++ u.runs⟩
  | free {pml4 : Option Nat} {ptr : Nat} {s' : Heap} (hptr : ptr ∈ u.live)
      (hrun : sysFree pml4 ptr u.heap = .ok ((), s')) :
      Used.Step u (.free pml4 ptr)
        ⟨s', u.live.erase ptr, u.runs.diff (freeRun ptr u.heap).toList⟩

/-- The bytes from `lo` up to `hi` are set aside for the pointer: a block, or a run of pages. -/
def Holds (s : Heap) (p lo hi : Nat) : Prop :=
  (∃ i v, s.InArena i v p ∧ lo = p ∧ hi = p + (s.descs i).block_size) ∨
    ∃ v a, s.arenas v = some a ∧ a.desc = none ∧ p = v + sizeofArena ∧ lo = v ∧ hi = v + 4096 * a.cnt

/-- The places in the arena at `v` whose blocks are in the free list of descriptor `i`. -/
def freePlaces (s : Heap) (i v : Nat) : Finset Nat :=
  (Finset.range (s.descs i).blocks_per_arena).filter fun k =>
    arena2block v (s.descs i) k ∈ (s.descs i).free_list

/-- The pages behind an arena without blocks. -/
def Large (s : Heap) (p : Nat) : Prop :=
  ∃ v a, s.arenas v = some a ∧ a.desc = none ∧ p = v + sizeofArena

/-- What every call keeps. -/
structure Kept (s : Heap) (live : List Nat) (runs : List (Nat × Nat)) : Prop where
  ok : s.Ok
  nodup : live.Nodup
  in_use : ∀ p ∈ live, s.Large p ∨ ∃ i v, s.InArena i v p ∧ p ∉ (s.descs i).free_list
  blocks : ∀ i v b, s.InArena i v b → b ∈ live ∨ b ∈ (s.descs i).free_list
  cnt : ∀ v n i, s.arenas v = some ⟨n, some i⟩ → i < DESC_CNT ∧ n = (s.freePlaces i v).card
  runs_iff : ∀ v n, (v, n) ∈ runs ↔ ∃ a, s.arenas v = some a ∧ pages a = n
  runs_nodup : runs.Nodup

/-! ## Blocks -/

section Blocks

variable {s s' : Heap} {i j v w b k k' n : Nat} {l : List Nat}

theorem Ok.block_pos (h : s.Ok) (i : Nat) : 0 < (s.descs i).block_size := by
  rw [(h.descs i).1]
  exact Nat.mul_pos (by decide) (Nat.two_pow_pos i)

/-- A block lies in one arena and belongs to one descriptor. -/
theorem Ok.inArena_unique (h : s.Ok) (hb : s.InArena i v b) (hb' : s.InArena j w b) : i = j ∧ v = w := by
  obtain rfl : v = w := (h.block2arena hb).symm.trans (h.block2arena hb')
  obtain ⟨a, ha, hd⟩ := hb.arena
  obtain ⟨a', ha', hd'⟩ := hb'.arena
  rw [ha] at ha'
  cases ha'
  rw [hd] at hd'
  cases hd'
  exact ⟨rfl, rfl⟩

theorem Ok.arena2block_inj (h : s.Ok) (hb : arena2block v (s.descs i) k = arena2block v (s.descs i) k') :
    k = k' := by
  unfold arena2block at hb
  exact Nat.eq_of_mul_eq_mul_right (h.block_pos i) (Nat.add_left_cancel hb)

theorem inArena_withFree : (s.withFree j l).InArena i v b ↔ s.InArena i v b :=
  ⟨fun hb => hb.congr rfl (withFree_size s j i l).symm (withFree_count s j i l).symm, fun hb => hb.withFree j l⟩

theorem inArena_withArena_other {a : Arena} (hw : w ≠ v) :
    (s.withArena v a).InArena i w b ↔ s.InArena i w b :=
  ⟨fun hb => hb.congr (withArena_other s a hw).symm rfl rfl,
    fun hb => hb.congr (withArena_other s a hw) rfl rfl⟩

/-- An arena keeps its blocks when its count changes. -/
theorem inArena_setCount (ha : s.arenas v = some ⟨n, some i⟩) {n' : Nat} :
    (s.withArena v ⟨n', some i⟩).InArena j w b ↔ s.InArena j w b := by
  by_cases hw : w = v
  · subst hw
    constructor
    · rintro ⟨⟨a, ha', hd⟩, hblock⟩
      rw [withArena_self] at ha'
      cases ha'
      exact ⟨⟨_, ha, hd⟩, hblock⟩
    · rintro ⟨⟨a, ha', hd⟩, hblock⟩
      rw [ha] at ha'
      cases ha'
      exact ⟨⟨_, withArena_self s w _, hd⟩, hblock⟩
  · exact inArena_withArena_other hw

theorem large_setCount (ha : s.arenas v = some ⟨n, some i⟩) {n' p : Nat} :
    (s.withArena v ⟨n', some i⟩).Large p ↔ s.Large p := by
  constructor
  · rintro ⟨w, a, hw, hd, rfl⟩
    by_cases hwv : w = v
    · subst hwv
      rw [withArena_self] at hw
      cases hw
      cases hd
    · exact ⟨w, a, (withArena_other s _ hwv).symm.trans hw, hd, rfl⟩
  · rintro ⟨w, a, hw, hd, rfl⟩
    have hwv : w ≠ v := by
      rintro rfl
      rw [ha] at hw
      cases hw
      cases hd
    exact ⟨w, a, (withArena_other s _ hwv).trans hw, hd, rfl⟩

/-- What pages a pointer to large pages lies in. -/
theorem Ok.block2arena_large (h : s.Ok) {a : Arena} (ha : s.arenas v = some a) :
    Heap.block2arena (v + sizeofArena) = v := by
  obtain ⟨k, hv, hin, hpos, -⟩ := h.taken v a ha
  have haligned := h.aligned
  have hfits := h.fits
  unfold Heap.block2arena
  simp only [sizeofArena]
  rw [and_page_mask (by omega)]
  omega

/-- Large pages have no block at the pointer. -/
theorem Ok.not_large (h : s.Ok) (hb : s.InArena i v b) : ¬ s.Large b := by
  rintro ⟨w, a, hw, hd, rfl⟩
  obtain rfl : v = w := (h.block2arena hb).symm.trans (h.block2arena_large hw)
  obtain ⟨c, hc, hd'⟩ := hb.arena
  rw [hw] at hc
  cases hc
  rw [hd] at hd'
  cases hd'

end Blocks

/-! ## The lists under the calls -/

section Lists

variable {s : Heap} {i v b n : Nat} {l : List Nat}

theorem withFree_withFree (s : Heap) (i : Nat) (l l' : List Nat) :
    (s.withFree i l).withFree i l' = s.withFree i l' := by
  simp [withFree]

theorem withFree_same (s : Heap) (i : Nat) : s.withFree i (s.descs i).free_list = s := by
  unfold withFree
  rw [Function.update_eq_self]

theorem arena2block_withFree (s : Heap) (i j : Nat) (l : List Nat) (v k : Nat) :
    arena2block v ((s.withFree i l).descs j) k = arena2block v (s.descs j) k := by
  unfold arena2block
  rw [withFree_size]

theorem run_setFreeList (s : Heap) (i : Nat) (l : List Nat) : setFreeList i l s = .ok ((), s.withFree i l) :=
  rfl

theorem run_appendBlock (hb : b ∉ (s.descs i).free_list) :
    Heap.appendBlock i b s = .ok ((), s.withFree i ((s.descs i).free_list ++ [b])) := by
  unfold Heap.appendBlock
  rw [Prog.bind_of_ok (Prog.get_eq_ok.2 ⟨rfl, rfl⟩), Prog.run_assert_bind hb]
  rfl

/-- The blocks of an arena, as `create_free_blocks` appends them. -/
def blocksOf (s : Heap) (i v n : Nat) : List Nat := (List.range n).map (arena2block v (s.descs i))

theorem mem_blocksOf : b ∈ s.blocksOf i v n ↔ ∃ k < n, b = arena2block v (s.descs i) k := by
  unfold blocksOf
  rw [List.mem_map]
  constructor
  · rintro ⟨k, hk, rfl⟩
    exact ⟨k, List.mem_range.1 hk, rfl⟩
  · rintro ⟨k, hk, rfl⟩
    exact ⟨k, List.mem_range.2 hk, rfl⟩

/-- No assertion of `create_free_blocks` fails when none of the blocks is in the list. -/
theorem run_appendBlocks (h : s.Ok) (hnew : ∀ k < n, arena2block v (s.descs i) k ∉ (s.descs i).free_list) :
    Heap.appendBlocks i v n s = .ok ((), s.withFree i ((s.descs i).free_list ++ s.blocksOf i v n)) := by
  induction n with
  | zero =>
      rw [blocksOf, List.range_zero, List.map_nil, List.append_nil, withFree_same]
      rfl
  | succ n ih =>
      have hlast : arena2block v (s.descs i) n ∉ (s.descs i).free_list ++ s.blocksOf i v n := by
        rw [List.mem_append, not_or]
        refine ⟨hnew n (Nat.lt_succ_self n), fun hmem => ?_⟩
        obtain ⟨k, hk, heq⟩ := mem_blocksOf.1 hmem
        have := h.arena2block_inj heq
        omega
      rw [Heap.appendBlocks, Prog.bind_of_ok (ih fun k hk => hnew k (by omega)),
        Prog.bind_of_ok (Prog.get_eq_ok.2 ⟨rfl, rfl⟩), run_appendBlock, withFree_self, withFree_withFree,
        arena2block_withFree, List.append_assoc]
      · unfold blocksOf
        rw [List.range_succ, List.map_append]
        rfl
      · rwa [withFree_self, arena2block_withFree]

/-- No assertion in the loop of `sys_free` fails when all of the blocks are in the list. -/
theorem run_removeBlocks (h : s.Ok) (hl : l.Nodup) (hin : ∀ k < n, arena2block v (s.descs i) k ∈ l) :
    ∃ l', Heap.removeBlocks i v n (s.withFree i l) = .ok ((), s.withFree i l') ∧ l'.Nodup ∧
      ∀ b, b ∈ l' ↔ b ∈ l ∧ b ∉ s.blocksOf i v n := by
  induction n with
  | zero => exact ⟨l, rfl, hl, fun b => by simp [blocksOf]⟩
  | succ n ih =>
      obtain ⟨l1, hrun, hnodup, hmem⟩ := ih fun k hk => hin k (by omega)
      have hlast : arena2block v (s.descs i) n ∈ l1 := by
        refine (hmem _).2 ⟨hin n (Nat.lt_succ_self n), fun hold => ?_⟩
        obtain ⟨k, hk, heq⟩ := mem_blocksOf.1 hold
        have := h.arena2block_inj heq
        omega
      refine ⟨l1.erase (arena2block v (s.descs i) n), ?_, hnodup.erase _, fun b => ?_⟩
      · rw [Heap.removeBlocks, Prog.bind_of_ok hrun, Prog.bind_of_ok (Prog.get_eq_ok.2 ⟨rfl, rfl⟩),
          arena2block_withFree]
        rw [withFree_self, Prog.run_assert_bind hlast, run_setFreeList, withFree_withFree]
      · rw [hnodup.mem_erase_iff, hmem, mem_blocksOf, mem_blocksOf]
        constructor
        · rintro ⟨hne, hb, hold⟩
          refine ⟨hb, ?_⟩
          rintro ⟨k, hk, rfl⟩
          by_cases hkn : k = n
          · exact hne (by rw [hkn])
          · exact hold ⟨k, by omega, rfl⟩
        · rintro ⟨hb, hold⟩
          exact ⟨fun heq => hold ⟨n, Nat.lt_succ_self n, heq⟩, hb,
            fun ⟨k, hk, heq⟩ => hold ⟨k, by omega, heq⟩⟩

theorem run_popBlock {ret : Nat} {rest : List Nat} (h : s.Ok) (hlist : (s.descs i).free_list = ret :: rest)
    (hb : s.InArena i v ret) (ha : s.arenas v = some ⟨n, some i⟩) :
    Heap.popBlock i s = .ok (some ret, (s.withFree i rest).withArena v ⟨n - 1, some i⟩) := by
  have harena : arenaAt (Heap.block2arena ret) (s.withFree i rest) =
      .ok (⟨n, some i⟩, s.withFree i rest) := by
    unfold arenaAt
    rw [Prog.bind_of_ok (Prog.get_eq_ok.2 ⟨rfl, rfl⟩), h.block2arena hb]
    exact Prog.ofOption_eq_ok.2 ⟨ha, rfl⟩
  unfold Heap.popBlock
  rw [Prog.bind_of_ok (Prog.get_eq_ok.2 ⟨rfl, rfl⟩), hlist]
  dsimp only
  rw [Prog.bind_of_ok (run_setFreeList s i rest), Prog.bind_of_ok harena, h.block2arena hb]
  rfl

end Lists

/-! ## What a change of the heap leaves accounted for -/

section Kept

variable {s s' : Heap} {live : List Nat} {runs : List (Nat × Nat)} {i v b n p : Nat}

theorem inArena_of (ha : s.arenas v = some ⟨n, some i⟩) {k : Nat}
    (hk : k < (s.descs i).blocks_per_arena) : s.InArena i v (arena2block v (s.descs i) k) :=
  ⟨⟨_, ha, rfl⟩, k, hk, rfl⟩

/-- Where the same blocks are free, the same places are. -/
theorem freePlaces_congr (hcnt : (s'.descs i).blocks_per_arena = (s.descs i).blocks_per_arena)
    (hmem : ∀ k < (s.descs i).blocks_per_arena,
      arena2block v (s'.descs i) k ∈ (s'.descs i).free_list ↔
        arena2block v (s.descs i) k ∈ (s.descs i).free_list) : s'.freePlaces i v = s.freePlaces i v := by
  unfold freePlaces
  rw [hcnt]
  exact Finset.filter_congr fun k hk => hmem k (Finset.mem_range.1 hk)

/-- One block changes its place between the pointers in use and its free list, and its arena the count. -/
theorem Kept.move {l live' : List Nat} {n' : Nat} (h : Kept s live runs) (hb : s.InArena i v b)
    (ha : s.arenas v = some ⟨n, some i⟩) (hl : l.Nodup) (hlive : live'.Nodup)
    (hfree : ∀ c, c ≠ b → (c ∈ l ↔ c ∈ (s.descs i).free_list)) (huse : ∀ c, c ≠ b → (c ∈ live' ↔ c ∈ live))
    (hone : b ∈ live' ↔ b ∉ l) (hn' : n' = ((s.withFree i l).freePlaces i v).card) :
    Kept ((s.withFree i l).withArena v ⟨n', some i⟩) live' runs := by
  have hi := (h.cnt v n i ha).1
  have hlist : ∀ c ∈ l, i < DESC_CNT ∧ ∃ v, s.InArena i v c := by
    intro c hc
    by_cases hcb : c = b
    · exact ⟨hi, v, hcb ▸ hb⟩
    · exact h.ok.free i c ((hfree c hcb).1 hc)
  have hok := (h.ok.withFree hlist hl).setCount ha n'
  have harena : ∀ j w c, ((s.withFree i l).withArena v ⟨n', some i⟩).InArena j w c ↔ s.InArena j w c :=
    fun j w c => (inArena_setCount (s := s.withFree i l) ha).trans inArena_withFree
  have hlarge : ∀ q, ((s.withFree i l).withArena v ⟨n', some i⟩).Large q ↔ s.Large q :=
    fun q => large_setCount (s := s.withFree i l) ha
  have hmem : ∀ j c, c ≠ b → (c ∈ ((s.withFree i l).descs j).free_list ↔ c ∈ (s.descs j).free_list) := by
    intro j c hcb
    by_cases hj : j = i
    · subst hj
      rw [withFree_self]
      exact hfree c hcb
    · rw [withFree_other s l hj]
  exact {
    ok := hok
    nodup := hlive
    in_use := fun q hq => by
      by_cases hqb : q = b
      · subst hqb
        refine .inr ⟨i, v, (harena _ _ _).2 hb, fun hc => hone.1 hq ?_⟩
        exact (withFree_self s i l) ▸ hc
      · obtain hq | ⟨j, w, hw, hnot⟩ := h.in_use q ((huse q hqb).1 hq)
        · exact .inl ((hlarge q).2 hq)
        · exact .inr ⟨j, w, (harena _ _ _).2 hw, fun hc => hnot ((hmem j q hqb).1 hc)⟩
    blocks := fun j w c hc => by
      have hold := (harena _ _ _).1 hc
      by_cases hcb : c = b
      · subst hcb
        obtain ⟨rfl, -⟩ := h.ok.inArena_unique hb hold
        by_cases hcl : c ∈ l
        · refine .inr ?_
          show c ∈ ((s.withFree i l).descs i).free_list
          rwa [withFree_self]
        · exact .inl (hone.2 hcl)
      · exact (h.blocks j w c hold).imp (huse c hcb).2 (hmem j c hcb).2
    cnt := fun w m j hw => by
      by_cases hwv : w = v
      · subst hwv
        rw [withArena_self] at hw
        cases hw
        exact ⟨hi, hn'⟩
      · have hw' : s.arenas w = some ⟨m, some j⟩ := (withArena_other _ _ hwv).symm.trans hw
        refine ⟨(h.cnt w m j hw').1, ((h.cnt w m j hw').2).trans (congrArg Finset.card ?_)⟩
        -- the blocks of another arena stay where they were
        refine (freePlaces_congr (withFree_count s i j l) fun k' hk' => ?_).symm
        rw [arena2block_withFree]
        refine hmem j _ fun heq => hwv ?_
        exact (h.ok.inArena_unique (heq ▸ inArena_of hw' hk') hb).2
    runs_iff := fun w m => by
      rw [h.runs_iff]
      by_cases hwv : w = v
      · subst hwv
        rw [withArena_self, ha]
        simp [pages]
      · rw [withArena_other _ _ hwv]
        rfl
    runs_nodup := h.runs_nodup }

/-- A block is taken from the front of its list. -/
theorem Kept.pop {ret : Nat} {rest : List Nat} (h : Kept s live runs)
    (hlist : (s.descs i).free_list = ret :: rest) :
    ∃ s', Heap.popBlock i s = .ok (some ret, s') ∧ ret ∉ live ∧ Kept s' (ret :: live) runs := by
  have hmem : ret ∈ (s.descs i).free_list := hlist ▸ List.mem_cons_self
  obtain ⟨hi, v, hb⟩ := h.ok.free i ret hmem
  obtain ⟨⟨n, d⟩, ha, hd⟩ := hb.arena
  cases hd
  have hnodup := h.ok.nodup i
  rw [hlist, List.nodup_cons] at hnodup
  have hnotlive : ret ∉ live := by
    intro hlive
    obtain hlarge | ⟨j, w, hw, hnot⟩ := h.in_use ret hlive
    · exact h.ok.not_large hb hlarge
    · obtain ⟨rfl, -⟩ := h.ok.inArena_unique hb hw
      exact hnot hmem
  obtain ⟨k, hk, hret⟩ := hb.block
  -- the place of the block is no longer free
  have hplaces : (s.withFree i rest).freePlaces i v = (s.freePlaces i v).erase k := by
    ext k'
    unfold freePlaces
    rw [Finset.mem_filter, Finset.mem_erase, Finset.mem_filter, withFree_self, withFree_count,
      arena2block_withFree, hlist, List.mem_cons]
    constructor
    · rintro ⟨hlt, hc⟩
      exact ⟨fun heq => hnodup.1 (hret ▸ heq ▸ hc), hlt, .inr hc⟩
    · rintro ⟨hne, hlt, hc | hc⟩
      · exact absurd (h.ok.arena2block_inj (hc.trans hret)) hne
      · exact ⟨hlt, hc⟩
  have hin : k ∈ s.freePlaces i v := Finset.mem_filter.2 ⟨Finset.mem_range.2 hk, hret ▸ hmem⟩
  refine ⟨_, run_popBlock h.ok hlist hb ha, hnotlive, h.move hb ha hnodup.2
    (List.nodup_cons.2 ⟨hnotlive, h.nodup⟩) (fun c hc => ?_) (fun c hc => ?_) ?_ ?_⟩
  · rw [hlist, List.mem_cons, or_iff_right hc]
  · rw [List.mem_cons, or_iff_right hc]
  · exact iff_of_true List.mem_cons_self hnodup.1
  · rw [hplaces, Finset.card_erase_of_mem hin, (h.cnt v n i ha).2]

/-- The state after a block was put back into its list. -/
def pushed (s : Heap) (i v n b : Nat) : Heap :=
  (s.withFree i ((s.descs i).free_list ++ [b])).withArena v ⟨n + 1, some i⟩

/-- A block in use goes back into its list. -/
theorem Kept.push (h : Kept s live runs) (hb : s.InArena i v b) (ha : s.arenas v = some ⟨n, some i⟩)
    (hlive : b ∈ live) : b ∉ (s.descs i).free_list ∧ Kept (s.pushed i v n b) (live.erase b) runs := by
  have hnot : b ∉ (s.descs i).free_list := by
    obtain hlarge | ⟨j, w, hw, hnot⟩ := h.in_use b hlive
    · exact absurd hlarge (h.ok.not_large hb)
    · obtain ⟨rfl, -⟩ := h.ok.inArena_unique hb hw
      exact hnot
  obtain ⟨k, hk, hblock⟩ := hb.block
  have hplaces : (s.withFree i ((s.descs i).free_list ++ [b])).freePlaces i v =
      insert k (s.freePlaces i v) := by
    ext k'
    unfold freePlaces
    rw [Finset.mem_filter, Finset.mem_insert, Finset.mem_filter, withFree_self, withFree_count,
      arena2block_withFree, List.mem_append, List.mem_singleton, Finset.mem_range]
    constructor
    · rintro ⟨hlt, hc | hc⟩
      · exact .inr ⟨hlt, hc⟩
      · exact .inl (h.ok.arena2block_inj (hc.trans hblock))
    · rintro (rfl | ⟨hlt, hc⟩)
      · exact ⟨hk, .inr hblock.symm⟩
      · exact ⟨hlt, .inl hc⟩
  have hout : k ∉ s.freePlaces i v := fun hin => hnot (hblock ▸ (Finset.mem_filter.1 hin).2)
  have hnodup : ((s.descs i).free_list ++ [b]).Nodup :=
    List.nodup_append.2 ⟨h.ok.nodup i, List.nodup_singleton b, fun c hc d hd => by
      rw [List.mem_singleton.1 hd]
      exact fun heq => hnot (heq ▸ hc)⟩
  refine ⟨hnot, h.move hb ha hnodup (h.nodup.erase b) (fun c hc => ?_) (fun c hc => ?_) ?_ ?_⟩
  · rw [List.mem_append, List.mem_singleton, or_iff_left hc]
  · exact List.mem_erase_of_ne hc
  · exact iff_of_false (h.nodup.not_mem_erase) (not_not.2 (List.mem_append_right _ (List.mem_singleton.2 rfl)))
  · rw [hplaces, Finset.card_insert_of_notMem hout, (h.cnt v n i ha).2]

/-! ## New arenas -/

theorem NewRun.none (h : s.Ok) (hnew : s.NewRun v n) : s.arenas v = none := by
  cases ha : s.arenas v with
  | none => rfl
  | some a =>
      obtain ⟨k, -, -, hpos, -⟩ := hnew.place
      obtain ⟨k', -, -, hpos', -⟩ := h.taken v a ha
      have happart := hnew.apart v a ha
      omega

theorem run_newArena (hnew : s.NewRun v n) (a : Arena) : Heap.newArena v a s = .ok ((), s.withArena v a) := by
  obtain ⟨k, hv, -, hpos, hset⟩ := hnew.place
  have hk : (v - s.space.vpool.start) / 4096 = k + 0 := by omega
  unfold Heap.newArena
  rw [Prog.bind_of_ok (Prog.get_eq_ok.2 ⟨rfl, rfl⟩), hk, Prog.run_require_bind (hset 0 hpos)]
  rfl

/-- Pages alone change nothing that is accounted for. -/
theorem Kept.space (h : Kept s live runs) {sp : Space} (hok : Ok { s with space := sp }) :
    Kept { s with space := sp } live runs where
  ok := hok
  nodup := h.nodup
  in_use := fun q hq => (h.in_use q hq).imp id fun ⟨j, w, hw, hnot⟩ => ⟨j, w, hw.congr rfl rfl rfl, hnot⟩
  blocks := fun j w c hc => h.blocks j w c (hc.congr rfl rfl rfl)
  cnt := h.cnt
  runs_iff := h.runs_iff
  runs_nodup := h.runs_nodup

/-- The state with a new arena of descriptor `i`, all of whose blocks are free. -/
def filled (s : Heap) (i v : Nat) : Heap :=
  (s.withArena v ⟨(s.descs i).blocks_per_arena, some i⟩).withFree i
    ((s.descs i).free_list ++ s.blocksOf i v (s.descs i).blocks_per_arena)

/-- The run of a new arena. -/
theorem Kept.runs_cons (h : Kept s live runs) (hnone : s.arenas v = none) (a : Arena) :
    (∀ w m, (w, m) ∈ (v, pages a) :: runs ↔ ∃ b, (s.withArena v a).arenas w = some b ∧ pages b = m) ∧
      ((v, pages a) :: runs).Nodup := by
  refine ⟨fun w m => ?_, List.nodup_cons.2 ⟨fun hc => ?_, h.runs_nodup⟩⟩
  · rw [List.mem_cons, h.runs_iff]
    by_cases hwv : w = v
    · subst hwv
      rw [withArena_self, hnone]
      simp [eq_comm]
    · rw [withArena_other s _ hwv]
      simp [hwv]
  · obtain ⟨b, hb, -⟩ := (h.runs_iff v _).1 hc
    rw [hnone] at hb
    cases hb

/-- A new arena with its blocks in the free list. -/
theorem Kept.fill (h : Kept s live runs) (hi : i < DESC_CNT) (hnew : s.NewRun v 1) :
    Heap.appendBlocks i v (s.descs i).blocks_per_arena
        (s.withArena v ⟨(s.descs i).blocks_per_arena, some i⟩) = .ok ((), s.filled i v) ∧
      Kept (s.filled i v) live ((v, 1) :: runs) := by
  have hnone := hnew.none h.ok
  obtain ⟨hok, -⟩ := h.ok.newArena hnew (pages_some (i := i) rfl)
    (run_newArena hnew ⟨(s.descs i).blocks_per_arena, some i⟩)
  have hself := withArena_self s v ⟨(s.descs i).blocks_per_arena, some i⟩
  have harena : ∀ j w c, w ≠ v → ((s.withArena v ⟨(s.descs i).blocks_per_arena, some i⟩).InArena j w c ↔
      s.InArena j w c) := fun j w c hw => inArena_withArena_other hw
  have hold : ∀ j w c, s.InArena j w c → w ≠ v := by
    rintro j w c hc rfl
    obtain ⟨a, ha, -⟩ := hc.arena
    rw [hnone] at ha
    cases ha
  have hmine : ∀ c ∈ s.blocksOf i v (s.descs i).blocks_per_arena,
      (s.withArena v ⟨(s.descs i).blocks_per_arena, some i⟩).InArena i v c := by
    intro c hc
    obtain ⟨k, hk, rfl⟩ := mem_blocksOf.1 hc
    exact ⟨⟨_, hself, rfl⟩, k, hk, rfl⟩
  -- a block of another arena is none of the new ones
  have hother : ∀ j w c, s.InArena j w c → c ∉ s.blocksOf i v (s.descs i).blocks_per_arena := by
    intro j w c hc hmem
    have hw := hold j w c hc
    exact hw (hok.inArena_unique ((harena j w c hw).2 hc) (hmine c hmem)).2
  have hfresh : ∀ c ∈ s.blocksOf i v (s.descs i).blocks_per_arena, c ∉ (s.descs i).free_list := by
    intro c hc hmem
    obtain ⟨-, w, hw⟩ := h.ok.free i c hmem
    exact hother i w c hw hc
  have hrun := run_appendBlocks (v := v) (i := i) hok (n := (s.descs i).blocks_per_arena)
    fun k hk => hfresh _ (mem_blocksOf.2 ⟨k, hk, rfl⟩)
  have hnodup : ((s.descs i).free_list ++ s.blocksOf i v (s.descs i).blocks_per_arena).Nodup := by
    refine List.nodup_append.2 ⟨h.ok.nodup i, ?_, fun c hc d hd heq => hfresh d hd (heq ▸ hc)⟩
    exact List.nodup_range.map fun k k' heq => h.ok.arena2block_inj heq
  have hok' : (s.filled i v).Ok := hok.withFree (fun c hc => by
    obtain hc | hc := List.mem_append.1 hc
    · exact hok.free i c hc
    · exact ⟨hi, v, hmine c hc⟩) hnodup
  have hin : ∀ j w c, (s.filled i v).InArena j w c ↔
      (s.withArena v ⟨(s.descs i).blocks_per_arena, some i⟩).InArena j w c := fun j w c => inArena_withFree
  have hmem : ∀ j c, c ∉ s.blocksOf i v (s.descs i).blocks_per_arena →
      (c ∈ ((s.filled i v).descs j).free_list ↔ c ∈ (s.descs j).free_list) := by
    intro j c hc
    unfold filled
    by_cases hj : j = i
    · subst hj
      rw [withFree_self, List.mem_append, or_iff_left hc]
    · rw [withFree_other _ _ hj]
      rfl
  have hallfree : ∀ c ∈ s.blocksOf i v (s.descs i).blocks_per_arena,
      c ∈ ((s.filled i v).descs i).free_list := by
    intro c hc
    unfold filled
    rw [withFree_self]
    exact List.mem_append_right _ hc
  refine ⟨hrun, {
    ok := hok'
    nodup := h.nodup
    in_use := fun q hq => ?_
    blocks := fun j w c hc => ?_
    cnt := fun w m j hw => ?_
    runs_iff := (h.runs_cons hnone ⟨(s.descs i).blocks_per_arena, some i⟩).1
    runs_nodup := (h.runs_cons hnone ⟨(s.descs i).blocks_per_arena, some i⟩).2 }⟩
  · obtain ⟨w, a, hw, hd, rfl⟩ | ⟨j, w, hw, hnot⟩ := h.in_use q hq
    · have hwv : w ≠ v := by
        rintro rfl
        rw [hnone] at hw
        cases hw
      exact .inl ⟨w, a, (withArena_other s _ hwv).trans hw, hd, rfl⟩
    · have hwv := hold j w q hw
      exact .inr ⟨j, w, (hin j w q).2 ((harena j w q hwv).2 hw),
        fun hc => hnot ((hmem j q (hother j w q hw)).1 hc)⟩
  · have hc' := (hin j w c).1 hc
    by_cases hwv : w = v
    · subst hwv
      obtain ⟨⟨a, ha, hd⟩, k, hk, rfl⟩ := hc'
      rw [hself] at ha
      cases ha
      cases hd
      exact .inr (hallfree _ (mem_blocksOf.2 ⟨k, hk, rfl⟩))
    · have hs := (harena j w c hwv).1 hc'
      exact (h.blocks j w c hs).imp id (hmem j c (hother j w c hs)).2
  · by_cases hwv : w = v
    · subst hwv
      obtain ⟨rfl, rfl⟩ : (s.descs i).blocks_per_arena = m ∧ i = j := by
        have heq := hself.symm.trans hw
        simpa using heq
      refine ⟨hi, ?_⟩
      have hplaces : (s.filled i w).freePlaces i w = Finset.range (s.descs i).blocks_per_arena := by
        have hcount : ((s.filled i w).descs i).blocks_per_arena = (s.descs i).blocks_per_arena :=
          withFree_count _ i i _
        unfold freePlaces
        rw [hcount]
        refine Finset.filter_true_of_mem fun k hk => ?_
        have hblock : arena2block w ((s.filled i w).descs i) k = arena2block w (s.descs i) k :=
          arena2block_withFree _ i i _ w k
        rw [hblock]
        exact hallfree _ (mem_blocksOf.2 ⟨k, Finset.mem_range.1 hk, rfl⟩)
      rw [hplaces, Finset.card_range]
    · have hw' : s.arenas w = some ⟨m, some j⟩ := (withArena_other s _ hwv).symm.trans hw
      refine ⟨(h.cnt w m j hw').1, (h.cnt w m j hw').2.trans (congrArg Finset.card ?_)⟩
      have hcount : ((s.filled i v).descs j).blocks_per_arena = (s.descs j).blocks_per_arena :=
        withFree_count _ i j _
      refine (freePlaces_congr hcount fun k hk => ?_).symm
      have hblock : arena2block w ((s.filled i v).descs j) k = arena2block w (s.descs j) k :=
        arena2block_withFree _ i j _ w k
      rw [hblock]
      exact hmem j _ (hother j w _ (inArena_of hw' hk))

/-- A new run of pages with the pointer behind its header. -/
theorem Kept.large (h : Kept s live runs) (hnew : s.NewRun v n) :
    v + sizeofArena ∉ live ∧ Kept (s.withArena v ⟨n, none⟩) ((v + sizeofArena) :: live) ((v, n) :: runs) := by
  have hnone := hnew.none h.ok
  have hpages : pages ⟨n, none⟩ = n := if_pos rfl
  obtain ⟨hok, -⟩ := h.ok.newArena hnew hpages (run_newArena hnew ⟨n, none⟩)
  have hself := withArena_self s v ⟨n, none⟩
  have hne : ∀ w a, s.arenas w = some a → w ≠ v := by
    rintro w a ha rfl
    rw [hnone] at ha
    cases ha
  have harena : ∀ j w c, (s.withArena v ⟨n, none⟩).InArena j w c ↔ s.InArena j w c := by
    intro j w c
    by_cases hwv : w = v
    · subst hwv
      constructor
      · rintro ⟨⟨a, ha, hd⟩, -⟩
        rw [hself] at ha
        cases ha
        cases hd
      · rintro ⟨⟨a, ha, -⟩, -⟩
        exact absurd rfl (hne w a ha)
    · exact inArena_withArena_other hwv
  have hnew' : v + sizeofArena ∉ live := by
    intro hlive
    obtain ⟨w, a, hw, -, heq⟩ | ⟨j, w, hw, -⟩ := h.in_use _ hlive
    · exact hne w a hw (by omega)
    · exact hok.not_large ((harena j w _).2 hw) ⟨v, _, hself, rfl, rfl⟩
  have hruns := h.runs_cons hnone ⟨n, none⟩
  refine ⟨hnew', {
    ok := hok
    nodup := List.nodup_cons.2 ⟨hnew', h.nodup⟩
    in_use := fun q hq => ?_
    blocks := fun j w c hc => (h.blocks j w c ((harena j w c).1 hc)).imp (List.mem_cons_of_mem _) id
    cnt := fun w m j hw => ?_
    runs_iff := hpages ▸ hruns.1
    runs_nodup := hpages ▸ hruns.2 }⟩
  · obtain rfl | hq := List.mem_cons.1 hq
    · exact .inl ⟨v, _, hself, rfl, rfl⟩
    · obtain ⟨w, a, hw, hd, rfl⟩ | ⟨j, w, hw, hnot⟩ := h.in_use q hq
      · exact .inl ⟨w, a, (withArena_other s _ (hne w a hw)).trans hw, hd, rfl⟩
      · exact .inr ⟨j, w, (harena j w q).2 hw, hnot⟩
  · by_cases hwv : w = v
    · subst hwv
      rw [hself] at hw
      cases hw
    · exact h.cnt w m j ((withArena_other s _ hwv).symm.trans hw)

/-! ## Arenas that go -/

/-- The state once the arena at `v` is gone and `l` is the free list of descriptor `i`. -/
def dropped (s : Heap) (i v : Nat) (l : List Nat) (sp : Space) : Heap :=
  { s.withFree i l with arenas := Function.update s.arenas v none, space := sp }

theorem Kept.drop {a : Arena} {l live' : List Nat} {sp : Space} (h : Kept s live runs)
    (ha : s.arenas v = some a) (hok : (s.dropped i v l sp).Ok)
    (hlist : ∀ c, c ∈ l ↔ c ∈ (s.descs i).free_list ∧ ¬ s.InArena i v c) (hlive : live'.Nodup)
    (hsub : ∀ c ∈ live', c ∈ live ∧ ¬ (c = v + sizeofArena ∧ a.desc = none) ∧ ∀ j, ¬ s.InArena j v c)
    (hkeep : ∀ c ∈ live, ∀ j w, w ≠ v → s.InArena j w c → c ∈ live') :
    Kept (s.dropped i v l sp) live' (runs.erase (v, pages a)) := by
  have harena : ∀ w, w ≠ v → (s.dropped i v l sp).arenas w = s.arenas w := by
    intro w hw
    unfold dropped
    exact Function.update_of_ne hw _ _
  have hgone : (s.dropped i v l sp).arenas v = none := by
    unfold dropped
    exact Function.update_self _ _ _
  have hin : ∀ j w c, (s.dropped i v l sp).InArena j w c ↔ w ≠ v ∧ s.InArena j w c := by
    intro j w c
    by_cases hw : w = v
    · subst hw
      refine iff_of_false ?_ fun hc => hc.1 rfl
      rintro ⟨⟨a', ha', -⟩, -⟩
      rw [hgone] at ha'
      cases ha'
    · refine Iff.trans ?_ (and_iff_right hw).symm
      exact ⟨fun hc => hc.congr (harena w hw).symm (withFree_size s i j l).symm (withFree_count s i j l).symm,
        fun hc => hc.congr (harena w hw) (withFree_size s i j l) (withFree_count s i j l)⟩
  have hmem : ∀ j c, c ∈ ((s.dropped i v l sp).descs j).free_list ↔
      c ∈ (s.descs j).free_list ∧ ¬ (j = i ∧ s.InArena i v c) := by
    intro j c
    show c ∈ ((s.withFree i l).descs j).free_list ↔ _
    by_cases hj : j = i
    · subst hj
      rw [withFree_self, hlist]
      simp
    · rw [withFree_other s l hj]
      simp [hj]
  exact {
    ok := hok
    nodup := hlive
    in_use := fun q hq => by
      obtain ⟨hq, hlarge, hblock⟩ := hsub q hq
      obtain ⟨w, a', hw, hd, heq⟩ | ⟨j, w, hw, hnot⟩ := h.in_use q hq
      · have hwv : w ≠ v := by
          rintro rfl
          rw [ha] at hw
          cases hw
          exact hlarge ⟨heq, hd⟩
        exact .inl ⟨w, a', (harena w hwv).trans hw, hd, heq⟩
      · have hwv : w ≠ v := fun heq => hblock j (heq ▸ hw)
        exact .inr ⟨j, w, (hin j w q).2 ⟨hwv, hw⟩, fun hc => hnot ((hmem j q).1 hc).1⟩
    blocks := fun j w c hc => by
      obtain ⟨hwv, hc⟩ := (hin j w c).1 hc
      obtain hlive | hfree := h.blocks j w c hc
      · exact .inl (hkeep c hlive j w hwv hc)
      · refine .inr ((hmem j c).2 ⟨hfree, fun hh => hwv ?_⟩)
        exact (h.ok.inArena_unique hc hh.2).2
    cnt := fun w m j hw => by
      have hwv : w ≠ v := by
        rintro rfl
        rw [hgone] at hw
        cases hw
      rw [harena w hwv] at hw
      refine ⟨(h.cnt w m j hw).1, (h.cnt w m j hw).2.trans (congrArg Finset.card ?_)⟩
      have hcount : ((s.dropped i v l sp).descs j).blocks_per_arena = (s.descs j).blocks_per_arena :=
        withFree_count s i j l
      refine (freePlaces_congr hcount fun k hk => ?_).symm
      have hblock : arena2block w ((s.dropped i v l sp).descs j) k = arena2block w (s.descs j) k :=
        arena2block_withFree s i j l w k
      rw [hblock]
      refine (hmem j _).trans (and_iff_left fun hh => hwv ?_)
      exact (h.ok.inArena_unique (inArena_of hw hk) hh.2).2
    runs_iff := fun w m => by
      rw [h.runs_nodup.mem_erase_iff, h.runs_iff]
      by_cases hwv : w = v
      · subst hwv
        rw [hgone, ha]
        simp [eq_comm]
      · rw [harena w hwv]
        simp [hwv]
    runs_nodup := h.runs_nodup.erase _ }

/-- An arena whose blocks are all out of the list is given back. -/
theorem Kept.release {pml4 : Option Nat} {a : Arena} {l live' : List Nat} {sp : Space}
    (h : Kept s live runs) (ha : s.arenas v = some a) (hdesc : ∀ j, a.desc = some j → j = i)
    (hl : l.Nodup) (hlist : ∀ c, c ∈ l ↔ c ∈ (s.descs i).free_list ∧ ¬ s.InArena i v c)
    (hlive : live'.Nodup)
    (hsub : ∀ c ∈ live', c ∈ live ∧ ¬ (c = v + sizeofArena ∧ a.desc = none) ∧ ∀ j, ¬ s.InArena j v c)
    (hkeep : ∀ c ∈ live, ∀ j w, w ≠ v → s.InArena j w c → c ∈ live')
    (hfree : freePages pml4 v (pages a) s.space = .ok ((), sp)) :
    Heap.freeArena pml4 v (pages a) (s.withFree i l) = .ok ((), s.dropped i v l sp) ∧
      Kept (s.dropped i v l sp) live' (runs.erase (v, pages a)) := by
  have hrun : Heap.freeArena pml4 v (pages a) (s.withFree i l) = .ok ((), s.dropped i v l sp) := by
    unfold Heap.freeArena
    rw [Prog.run_modify_bind]
    exact Prog.zoom_eq_ok.2 ⟨sp, hfree, rfl⟩
  have hok : (s.withFree i l).Ok := h.ok.withFree (fun c hc => h.ok.free i c ((hlist c).1 hc).1) hl
  refine ⟨hrun, h.drop ha ?_ hlist hlive hsub hkeep⟩
  refine hok.freeArena ha rfl (fun j c hc hin => ?_) hrun
  have hin' := inArena_withFree.1 hin
  obtain ⟨a', ha', hd⟩ := hin'.arena
  rw [ha] at ha'
  cases ha'
  obtain rfl := hdesc j hd
  rw [withFree_self] at hc
  exact ((hlist c).1 hc).2 hin'

end Kept

/-! ## The calls -/

section Calls

variable {s s' : Heap} {live : List Nat} {runs : List (Nat × Nat)} {size ptr : Nat}

theorem blocks_pos {i : Nat} (h : s.Ok) (hi : i < DESC_CNT) : 0 < (s.descs i).blocks_per_arena := by
  rw [(h.descs i).2]
  simp only [DESC_CNT] at hi
  interval_cases i <;> decide

theorem exists_desc (h : s.Ok) (hsize : size ≤ 1024) :
    ∃ i, (List.range DESC_CNT).find? (fun i => (s.descs i).block_size ≥ size) = some i := by
  refine Option.isSome_iff_exists.1 (List.find?_isSome.2 ⟨6, List.mem_range.2 (by decide), ?_⟩)
  rw [(h.descs 6).1]
  exact decide_eq_true (Nat.le_trans hsize (by decide))

/-- `create_free_blocks`, when `alloc_pages` succeeds. -/
theorem Kept.createFreeBlocks {i v : Nat} {sp : Space} (h : Kept s live runs) (hi : i < DESC_CNT)
    (halloc : allocPages 1 s.space = .ok (some v, sp)) :
    ∃ s', Heap.createFreeBlocks i s = .ok ((), s') ∧ Kept s' live ((v, 1) :: runs) ∧
      (s'.descs i).free_list ≠ [] := by
  have hrun : onSpace (allocPages 1) s = .ok (some v, { s with space := sp }) :=
    Prog.zoom_eq_ok.2 ⟨sp, halloc, rfl⟩
  obtain ⟨hok, -, -, hnew⟩ := h.ok.allocPages Nat.one_pos hrun
  obtain ⟨hfill, hkept⟩ := (h.space hok).fill hi (hnew v rfl)
  refine ⟨_, ?_, hkept, ?_⟩
  · unfold Heap.createFreeBlocks
    rw [Prog.bind_of_ok hrun]
    dsimp only
    rw [Prog.bind_of_ok (Prog.get_eq_ok.2 ⟨rfl, rfl⟩), Prog.bind_of_ok (run_newArena (hnew v rfl) _)]
    exact hfill
  · unfold filled
    rw [withFree_self]
    refine List.append_ne_nil_of_right_ne_nil _ fun hnil => ?_
    have hmem : arena2block v (s.descs i) 0 ∈
        Heap.blocksOf { s with space := sp } i v (s.descs i).blocks_per_arena :=
      mem_blocksOf.2 ⟨0, blocks_pos h.ok hi, rfl⟩
    rw [hnil] at hmem
    cases hmem

/-- `sys_malloc`, when `alloc_pages` succeeds: no assertion fails, and the pointer is a new one. -/
theorem Kept.malloc (h : Kept s live runs) (hsize : size < 2 ^ 63)
    (halloc : ∀ cnt, pagesAsked size s = some cnt → ∃ v sp, allocPages cnt s.space = .ok (some v, sp)) :
    ∃ p s', sysMalloc size s = .ok (some p, s') ∧ p ∉ live ∧
      Kept s' (p :: live) ((mallocRun size s).toList ++ runs) := by
  unfold mallocRun
  by_cases hlarge : size > 1024
  · have hasked : pagesAsked size s = some ((size + sizeofArena + 4096 - 1) % 2 ^ 64 / 4096) := by
      unfold pagesAsked
      rw [if_pos hlarge]
    obtain ⟨v, sp, hv⟩ := halloc _ hasked
    have hpos : 0 < (size + sizeofArena + 4096 - 1) % 2 ^ 64 / 4096 := by
      simp only [sizeofArena]
      omega
    have hrun : onSpace (allocPages ((size + sizeofArena + 4096 - 1) % 2 ^ 64 / 4096)) s =
        .ok (some v, { s with space := sp }) := Prog.zoom_eq_ok.2 ⟨sp, hv, rfl⟩
    obtain ⟨hok, -, -, hnew⟩ := h.ok.allocPages hpos hrun
    obtain ⟨hfresh, hkept⟩ := (h.space hok).large (hnew v rfl)
    refine ⟨v + sizeofArena, Heap.withArena { s with space := sp } v
      ⟨(size + sizeofArena + 4096 - 1) % 2 ^ 64 / 4096, none⟩, ?_, hfresh, ?_⟩
    · unfold sysMalloc
      rw [if_pos hlarge]
      rw [Prog.bind_of_ok hrun]
      dsimp only
      rw [Prog.bind_of_ok (run_newArena (hnew v rfl) _)]
      rfl
    · rw [hasked, Option.bind_some, hv]
      exact hkept
  · obtain ⟨i, hfind⟩ := exists_desc h.ok (Nat.le_of_not_lt hlarge)
    have hi : i < DESC_CNT := List.mem_range.1 (List.mem_of_find?_eq_some hfind)
    have hasked : pagesAsked size s = if (s.descs i).free_list = [] then some 1 else none := by
      unfold pagesAsked
      rw [if_neg hlarge, hfind]
    have hcall : sysMalloc size s = (if (s.descs i).free_list = [] then do
        Heap.createFreeBlocks i
        Heap.popBlock i
      else Heap.popBlock i : Prog Heap (Option Nat)) s := by
      unfold sysMalloc
      rw [if_neg hlarge, Prog.bind_of_ok (Prog.get_eq_ok.2 ⟨rfl, rfl⟩),
        Prog.bind_of_ok (Prog.ofOption_eq_ok.2 ⟨hfind, rfl⟩)]
    rw [hcall]
    by_cases hempty : (s.descs i).free_list = []
    · -- a new arena fills the list first
      rw [if_pos hempty] at hasked ⊢
      obtain ⟨v, sp, hv⟩ := halloc 1 hasked
      obtain ⟨s1, hcreate, hkept, hne⟩ := h.createFreeBlocks hi hv
      obtain ⟨ret, rest, hlist⟩ := List.exists_cons_of_ne_nil hne
      obtain ⟨s2, hpop, hfresh, hkept2⟩ := hkept.pop hlist
      refine ⟨ret, s2, ?_, hfresh, ?_⟩
      · rw [Prog.bind_of_ok hcreate, hpop]
      · rw [hasked, Option.bind_some, hv]
        exact hkept2
    · rw [if_neg hempty] at hasked ⊢
      obtain ⟨ret, rest, hlist⟩ := List.exists_cons_of_ne_nil hempty
      obtain ⟨s2, hpop, hfresh, hkept2⟩ := h.pop hlist
      refine ⟨ret, s2, hpop, hfresh, ?_⟩
      rw [hasked, Option.bind_none]
      exact hkept2

/-- `sys_free` of a pointer in use: no assertion of it fails; it puts a block back, or gives back a run of pages
    that it has. -/
theorem Kept.free (h : Kept s live runs) (pml4 : Option Nat) (hptr : ptr ∈ live) :
    (freeRun ptr s = none ∧ ∃ s', sysFree pml4 ptr s = .ok ((), s') ∧ s'.space = s.space ∧
      Kept s' (live.erase ptr) runs) ∨
    ∃ v n t, freeRun ptr s = some (v, n) ∧ t.space = s.space ∧
      sysFree pml4 ptr s = Heap.freeArena pml4 v n t ∧
      (∃ a, s.arenas v = some a ∧ pages a = n) ∧
      (∀ q ∈ live.erase ptr, ∀ j, ¬ s.InArena j v q) ∧
      ∀ sp, freePages pml4 v n s.space = .ok ((), sp) →
        ∃ s', sysFree pml4 ptr s = .ok ((), s') ∧ Kept s' (live.erase ptr) (runs.erase (v, n)) := by
  obtain ⟨v, a, ha, hd, rfl⟩ | ⟨i, v, hb, hnot⟩ := h.in_use ptr hptr
  · -- large pages
    right
    have hpage := h.ok.block2arena_large ha
    have hpages : pages a = a.cnt := if_pos hd
    have hcall : sysFree pml4 (v + sizeofArena) s = Heap.freeArena pml4 v a.cnt s := by
      have harena : arenaAt v s = .ok (a, s) := by
        unfold arenaAt
        rw [Prog.bind_of_ok (Prog.get_eq_ok.2 ⟨rfl, rfl⟩)]
        exact Prog.ofOption_eq_ok.2 ⟨ha, rfl⟩
      unfold sysFree
      rw [Prog.run_assert_bind (by simp only [sizeofArena]; omega), hpage, Prog.bind_of_ok harena, hd]
    have hnoblock : ∀ q ∈ live.erase (v + sizeofArena), ∀ j, ¬ s.InArena j v q := by
      intro q _ j hq
      obtain ⟨a', ha', hd'⟩ := hq.arena
      rw [ha] at ha'
      cases ha'
      rw [hd] at hd'
      cases hd'
    refine ⟨v, a.cnt, s, ?_, rfl, hcall, ⟨a, ha, hpages⟩, hnoblock, fun sp hsp => ?_⟩
    · unfold freeRun
      rw [hpage, ha, Option.bind_some, hd]
    · have hlist : ∀ c, c ∈ (s.descs 0).free_list ↔
          c ∈ (s.descs 0).free_list ∧ ¬ s.InArena 0 v c := by
        refine fun c => (and_iff_left fun hc => ?_).symm
        obtain ⟨a', ha', hd'⟩ := hc.arena
        rw [ha] at ha'
        cases ha'
        rw [hd] at hd'
        cases hd'
      rw [← hpages] at hsp
      obtain ⟨hrun, hkept⟩ := h.release (i := 0) ha
        (fun j hj => by rw [hd] at hj; cases hj) (h.ok.nodup 0) hlist (h.nodup.erase (v + sizeofArena))
        (fun c hc => ⟨List.mem_of_mem_erase hc, fun hh => (h.nodup.mem_erase_iff.1 hc).1 hh.1,
          hnoblock c hc⟩)
        (fun c hc j w _ hw => h.nodup.mem_erase_iff.2 ⟨fun heq => h.ok.not_large hw ⟨v, a, ha, hd, heq⟩, hc⟩)
        hsp
      rw [withFree_same, hpages] at hrun
      rw [hpages] at hkept
      exact ⟨_, hcall.trans hrun, hkept⟩
  · -- a block
    have hpage := h.ok.block2arena hb
    obtain ⟨hlow, -⟩ := (h.ok.inPage hb).2
    obtain ⟨⟨n, d⟩, ha, hd⟩ := hb.arena
    cases hd
    obtain ⟨-, hkept⟩ := h.push hb ha hptr
    have hi := (h.cnt v n i ha).1
    have hcount : ((s.pushed i v n ptr).descs i).blocks_per_arena = (s.descs i).blocks_per_arena :=
      withFree_count s i i _
    have hcall : sysFree pml4 ptr s = (if n + 1 = (s.descs i).blocks_per_arena then do
        Heap.removeBlocks i v (s.descs i).blocks_per_arena
        Heap.freeArena pml4 v 1
      else pure () : Prog Heap Unit) (s.pushed i v n ptr) := by
      have harena : arenaAt v s = .ok (⟨n, some i⟩, s) := by
        unfold arenaAt
        rw [Prog.bind_of_ok (Prog.get_eq_ok.2 ⟨rfl, rfl⟩)]
        exact Prog.ofOption_eq_ok.2 ⟨ha, rfl⟩
      have hset : setArena v ⟨n + 1, some i⟩ (s.withFree i ((s.descs i).free_list ++ [ptr])) =
          .ok ((), s.pushed i v n ptr) := rfl
      unfold sysFree
      rw [Prog.run_assert_bind (by omega), hpage, Prog.bind_of_ok harena]
      dsimp only
      rw [Prog.bind_of_ok (run_appendBlock hnot), Prog.bind_of_ok hset,
        Prog.bind_of_ok (Prog.get_eq_ok.2 ⟨rfl, rfl⟩), hcount]
    rw [hcall]
    have hrun0 : freeRun ptr s = if n + 1 = (s.descs i).blocks_per_arena then some (v, 1) else none := by
      unfold freeRun
      rw [hpage, ha, Option.bind_some]
    by_cases hlast : n + 1 = (s.descs i).blocks_per_arena
    · right
      rw [if_pos hlast] at hrun0 ⊢
      have hapush : (s.pushed i v n ptr).arenas v = some ⟨n + 1, some i⟩ := withArena_self _ _ _
      -- as many blocks are free as the arena has, so all of them are
      have hall : ∀ k < (s.descs i).blocks_per_arena,
          arena2block v ((s.pushed i v n ptr).descs i) k ∈ ((s.pushed i v n ptr).descs i).free_list := by
        have hcard := (hkept.cnt v (n + 1) i hapush).2
        rw [hlast, ← hcount] at hcard
        have hfull : (s.pushed i v n ptr).freePlaces i v =
            Finset.range ((s.pushed i v n ptr).descs i).blocks_per_arena :=
          Finset.eq_of_subset_of_card_le (Finset.filter_subset _ _) (by rw [Finset.card_range, hcard])
        intro k hk
        have hmem : k ∈ (s.pushed i v n ptr).freePlaces i v := by
          rw [hfull, hcount]
          exact Finset.mem_range.2 hk
        exact (Finset.mem_filter.1 hmem).2
      obtain ⟨l, hremove, hl, hmem⟩ := run_removeBlocks hkept.ok (hkept.ok.nodup i) hall
      rw [withFree_same] at hremove
      have hlist : ∀ c, c ∈ l ↔ c ∈ ((s.pushed i v n ptr).descs i).free_list ∧
          ¬ (s.pushed i v n ptr).InArena i v c := by
        intro c
        rw [hmem, mem_blocksOf]
        refine and_congr_right fun _ => not_congr ⟨fun ⟨k, hk, hc⟩ => ?_, fun hc => ?_⟩
        · exact ⟨⟨_, hapush, rfl⟩, k, by rwa [hcount], hc⟩
        · obtain ⟨k, hk, hc⟩ := hc.block
          exact ⟨k, by rwa [hcount] at hk, hc⟩
      have hin : ∀ j w c, (s.pushed i v n ptr).InArena j w c ↔ s.InArena j w c := fun j w c =>
        (inArena_setCount (s := s.withFree i ((s.descs i).free_list ++ [ptr])) ha).trans inArena_withFree
      have hdesc : ∀ j c, (s.pushed i v n ptr).InArena j v c → j = i := by
        intro j c hc
        obtain ⟨a', ha', hd'⟩ := hc.arena
        rw [hapush] at ha'
        cases ha'
        exact (Option.some.inj hd').symm
      have hnoblock : ∀ q ∈ live.erase ptr, ∀ j, ¬ (s.pushed i v n ptr).InArena j v q := by
        intro q hq j hc
        obtain rfl := hdesc j q hc
        obtain ⟨k, hk, rfl⟩ := hc.block
        obtain hlarge | ⟨j', w, hw, hnot'⟩ := hkept.in_use _ hq
        · exact hkept.ok.not_large hc hlarge
        · obtain ⟨rfl, -⟩ := hkept.ok.inArena_unique hc hw
          exact hnot' (hall k (by rwa [hcount] at hk))
      refine ⟨v, 1, (s.pushed i v n ptr).withFree i l, hrun0, rfl, ?_, ⟨_, ha, rfl⟩,
        fun q hq j hc => hnoblock q hq j ((hin j v q).2 hc), fun sp hsp => ?_⟩
      · rw [Prog.bind_of_ok hremove]
      · obtain ⟨hrun, hgone⟩ := hkept.release (i := i) hapush
          (fun j hj => (Option.some.inj hj).symm) hl hlist hkept.nodup
          (fun c hc => ⟨hc, fun hh => Option.some_ne_none i hh.2, hnoblock c hc⟩)
          (fun c hc _ _ _ _ => hc) hsp
        refine ⟨_, ?_, hgone⟩
        rw [Prog.bind_of_ok hremove]
        exact hrun
    · left
      rw [if_neg hlast] at hrun0 ⊢
      exact ⟨hrun0, _, rfl, rfl, hkept⟩

/-- `sys_malloc`, when `alloc_pages` does not succeed. -/
theorem Kept.malloc_null {cnt : Nat} {r : Option Nat} (h : Kept s live runs) (hsize : size < 2 ^ 63)
    (hasked : pagesAsked size s = some cnt)
    (hnone : ∀ v sp, allocPages cnt s.space ≠ .ok (some v, sp)) (hrun : sysMalloc size s = .ok (r, s')) :
    r = none ∧ mallocRun size s = none ∧ Kept s' live runs := by
  have hmalloc : mallocRun size s = none := by
    unfold mallocRun
    rw [hasked, Option.bind_some]
    split
    · exact absurd (by assumption) (hnone _ _)
    · rfl
  unfold sysMalloc at hrun
  unfold pagesAsked at hasked
  by_cases hlarge : size > 1024
  · rw [if_pos hlarge] at hasked hrun
    obtain rfl := Option.some.inj hasked
    obtain ⟨a, s1, halloc, hrun⟩ := Prog.bind_eq_ok.1 hrun
    obtain ⟨sp, hsp, rfl⟩ := Prog.zoom_eq_ok.1 halloc
    have hpos : 0 < (size + sizeofArena + 4096 - 1) % 2 ^ 64 / 4096 := by
      simp only [sizeofArena]
      omega
    obtain ⟨hok, -, -, -⟩ := h.ok.allocPages hpos halloc
    cases a with
    | none =>
        obtain ⟨rfl, rfl⟩ := Prog.pure_eq_ok.1 hrun
        exact ⟨rfl, hmalloc, h.space hok⟩
    | some v => exact absurd hsp (hnone v sp)
  · rw [if_neg hlarge] at hasked hrun
    obtain ⟨s1, s2, hget, hrun⟩ := Prog.bind_eq_ok.1 hrun
    obtain ⟨rfl, rfl⟩ := Prog.get_eq_ok.1 hget
    obtain ⟨i, s3, hclass, hrun⟩ := Prog.bind_eq_ok.1 hrun
    obtain ⟨hfind, rfl⟩ := Prog.ofOption_eq_ok.1 hclass
    rw [hfind] at hasked
    dsimp only at hasked
    by_cases hempty : (s.descs i).free_list = []
    · rw [if_pos hempty] at hasked hrun
      obtain rfl := Option.some.inj hasked
      obtain ⟨⟨⟩, s4, hfill, -⟩ := Prog.bind_eq_ok.1 hrun
      obtain ⟨a, s5, halloc, hfill⟩ := Prog.bind_eq_ok.1 hfill
      obtain ⟨sp, hsp, rfl⟩ := Prog.zoom_eq_ok.1 halloc
      cases a with
      | none => cases hfill
      | some v => exact absurd hsp (hnone v sp)
    · rw [if_neg hempty] at hasked
      cases hasked

theorem freeArena_eq_ok {pml4 : Option Nat} {v n : Nat} {u : Unit} :
    Heap.freeArena pml4 v n s = .ok (u, s') ↔ ∃ sp, freePages pml4 v n s.space = .ok ((), sp) ∧
      s' = { s with space := sp, arenas := Function.update s.arenas v none } := by
  unfold Heap.freeArena
  rw [Prog.run_modify_bind]
  exact Prog.zoom_eq_ok

theorem freePages_of_error {pml4 : Option Nat} {v n : Nat} {e : Fault}
    (h : Heap.freeArena pml4 v n s = .error e) : freePages pml4 v n s.space = .error e := by
  unfold Heap.freeArena at h
  rw [Prog.run_modify_bind] at h
  unfold onSpace Prog.zoom at h
  dsimp only at h
  cases hfree : freePages pml4 v n s.space with
  | error e' =>
      rw [hfree] at h
      cases h
      rfl
  | ok r =>
      rw [hfree] at h
      cases h

/-- Every call keeps the accounts, whatever it returns. -/
theorem Kept.step {u u' : Used} {c : Call} (h : Kept u.heap u.live u.runs) (hstep : Used.Step u c u') :
    Kept u'.heap u'.live u'.runs := by
  cases hstep with
  | @malloc size r s' hsize hrun =>
      by_cases hgot : ∀ cnt, pagesAsked size u.heap = some cnt →
          ∃ v sp, allocPages cnt u.heap.space = .ok (some v, sp)
      · obtain ⟨p, s2, hcall, -, hkept⟩ := h.malloc hsize hgot
        rw [hcall] at hrun
        cases hrun
        exact hkept
      · push Not at hgot
        obtain ⟨cnt, hasked, hnone⟩ := hgot
        obtain ⟨rfl, hmalloc, hkept⟩ := h.malloc_null hsize hasked hnone hrun
        dsimp only
        rw [hmalloc]
        exact hkept
  | @free pml4 ptr s' hptr hrun =>
      obtain ⟨hnone, s2, hcall, -, hkept⟩ | ⟨v, n, t, hsome, hspace, hcall, -, -, hfree⟩ := h.free pml4 hptr
      · rw [hcall] at hrun
        cases hrun
        dsimp only
        rw [hnone]
        exact hkept
      · obtain ⟨sp, hsp, -⟩ := freeArena_eq_ok.1 (hcall ▸ hrun)
        obtain ⟨s2, hcall2, hkept⟩ := hfree sp (hspace ▸ hsp)
        rw [hcall2] at hrun
        cases hrun
        dsimp only
        rw [hsome, Option.toList_some, List.diff_cons, List.diff_nil]
        exact hkept

theorem Init.kept (h : s.Init) : Kept s [] [] where
  ok := h.ok
  nodup := List.nodup_nil
  in_use := nofun
  blocks i v b hb := by
    obtain ⟨a, ha, -⟩ := hb.arena
    rw [h.arenas v] at ha
    cases ha
  cnt v n i ha := by
    rw [h.arenas v] at ha
    cases ha
  runs_iff v n := by
    refine iff_of_false List.not_mem_nil fun ⟨a, ha, _⟩ => ?_
    rw [h.arenas v] at ha
    cases ha
  runs_nodup := List.nodup_nil

end Calls

/-! ## What the pointers in use hold -/

section Holds

variable {s : Heap} {live : List Nat} {runs : List (Nat × Nat)} {i v n p q lo hi lo' hi' ptr : Nat}

theorem Ok.block_pages (h : s.Ok) (hb : s.InArena i v p) : v ≤ p ∧ p + (s.descs i).block_size ≤ v + 4096 := by
  obtain ⟨-, hlo, hhi, -⟩ := h.inPage hb
  omega

/-- They lie in the pages of one arena. -/
theorem Ok.holds_pages (h : s.Ok) (hp : s.Holds p lo hi) :
    ∃ v a, s.arenas v = some a ∧ v ≤ lo ∧ hi ≤ v + 4096 * pages a ∧
      (a.desc = none ∧ p = v + sizeofArena ∨
        ∃ i, a.desc = some i ∧ s.InArena i v p ∧ lo = p ∧ hi = p + (s.descs i).block_size) := by
  obtain ⟨i, v, hb, rfl, rfl⟩ | ⟨v, a, ha, hd, rfl, rfl, rfl⟩ := hp
  · obtain ⟨a, ha, hd⟩ := hb.arena
    obtain ⟨hlo, hhi⟩ := h.block_pages hb
    exact ⟨v, a, ha, hlo, by rwa [pages_some hd], .inr ⟨i, hd, hb, rfl, rfl⟩⟩
  · exact ⟨lo, a, ha, le_refl lo, by rw [pages, if_pos hd], .inl ⟨hd, rfl⟩⟩

/-- Two blocks of an arena share no byte. -/
theorem blocks_apart (hp : s.InArena i v p) (hq : s.InArena i v q) (hne : p ≠ q) :
    p + (s.descs i).block_size ≤ q ∨ q + (s.descs i).block_size ≤ p := by
  obtain ⟨k, -, rfl⟩ := hp.block
  obtain ⟨k', -, rfl⟩ := hq.block
  unfold arena2block
  obtain hlt | rfl | hlt := Nat.lt_trichotomy k k'
  · have hmul := Nat.mul_le_mul_right (s.descs i).block_size (Nat.succ_le_of_lt hlt)
    rw [Nat.succ_mul] at hmul
    omega
  · exact absurd rfl hne
  · have hmul := Nat.mul_le_mul_right (s.descs i).block_size (Nat.succ_le_of_lt hlt)
    rw [Nat.succ_mul] at hmul
    omega

/-- What two pointers hold is apart. -/
theorem Ok.holds_apart (h : s.Ok) (hp : s.Holds p lo hi) (hq : s.Holds q lo' hi') (hne : p ≠ q) :
    hi ≤ lo' ∨ hi' ≤ lo := by
  obtain ⟨v, a, ha, hlo, hhi, hplace⟩ := h.holds_pages hp
  obtain ⟨w, c, hc, hlo', hhi', hplace'⟩ := h.holds_pages hq
  by_cases hvw : v = w
  · subst hvw
    rw [ha] at hc
    cases hc
    obtain ⟨hd, rfl⟩ | ⟨i, hd, hb, rfl, rfl⟩ := hplace <;> obtain ⟨hd', rfl⟩ | ⟨j, hd', hb', rfl, rfl⟩ := hplace'
    · exact absurd rfl hne
    · rw [hd] at hd'
      cases hd'
    · rw [hd] at hd'
      cases hd'
    · rw [hd] at hd'
      cases hd'
      exact blocks_apart hb hb' hne
  · have := h.apart v a w c ha hc hvw
    omega

/-- Every pointer in use holds something. -/
theorem Kept.holds (h : Kept s live runs) (hp : p ∈ live) : ∃ lo hi, s.Holds p lo hi := by
  obtain ⟨v, a, ha, hd, rfl⟩ | ⟨i, v, hb, -⟩ := h.in_use p hp
  · exact ⟨_, _, .inr ⟨v, a, ha, hd, rfl, rfl, rfl⟩⟩
  · exact ⟨_, _, .inl ⟨i, v, hb, rfl, rfl⟩⟩

theorem freeRun_page (hrun : freeRun ptr s = some (v, n)) : v = Heap.block2arena ptr := by
  unfold freeRun at hrun
  obtain ⟨a, -, hrun⟩ := Option.bind_eq_some_iff.1 hrun
  cases hd : a.desc with
  | none =>
      rw [hd] at hrun
      cases hrun
      rfl
  | some i =>
      rw [hd] at hrun
      dsimp only at hrun
      split at hrun
      · cases hrun
        rfl
      · cases hrun

/-- What `sys_free` gives back is a run of pages that the heap has, and no other pointer in use lies in it. -/
theorem Kept.freeRun (h : Kept s live runs) (hptr : ptr ∈ live) (hrun : freeRun ptr s = some (v, n)) :
    (v, n) ∈ runs ∧ ∀ q ∈ live.erase ptr, ∀ lo hi, s.Holds q lo hi → hi ≤ v ∨ v + 4096 * n ≤ lo := by
  obtain ⟨hnone, -⟩ | ⟨v', n', t, hsome, -, -, ⟨a, ha, hpages⟩, hnoblock, -⟩ := h.free none hptr
  · rw [hrun] at hnone
    cases hnone
  rw [hrun] at hsome
  cases hsome
  refine ⟨(h.runs_iff v n).2 ⟨a, ha, hpages⟩, fun q hq lo hi hholds => ?_⟩
  obtain ⟨w, c, hc, hlo, hhi, hplace⟩ := h.ok.holds_pages hholds
  by_cases hvw : v = w
  · subst hvw
    obtain ⟨hd, rfl⟩ | ⟨i, -, hb, -⟩ := hplace
    · -- the arena has no blocks, and its pointer is the one that is freed
      obtain ⟨w, e, he, -, rfl⟩ | ⟨i, w, hb, -⟩ := h.in_use ptr hptr
      · have hpage := freeRun_page hrun
        rw [h.ok.block2arena_large he] at hpage
        rw [hpage] at hq
        exact absurd rfl (h.nodup.mem_erase_iff.1 hq).1
      · have hpage := freeRun_page hrun
        rw [h.ok.block2arena hb] at hpage
        obtain ⟨e, he, hd'⟩ := hb.arena
        rw [← hpage, hc] at he
        cases he
        rw [hd] at hd'
        cases hd'
    · exact absurd hb (hnoblock q hq i)
  · have := h.ok.apart v a w c ha hc hvw
    rw [hpages] at this
    omega

end Holds

/-! ## The heap in use, accounted for -/

/-- The accounts of a heap. -/
structure Used.Accounted (u : Used) : Prop where
  /-- A block is in use, or once in its free list. -/
  blocks : ∀ i v b, u.heap.InArena i v b →
    (b ∈ u.live ∧ b ∉ (u.heap.descs i).free_list) ∨ (b ∉ u.live ∧ (u.heap.descs i).free_list.count b = 1)
  free : ∀ i, ∀ b ∈ (u.heap.descs i).free_list, i < DESC_CNT ∧ ∃ v, u.heap.InArena i v b
  cnt : ∀ v n i, u.heap.arenas v = some ⟨n, some i⟩ → n = (u.heap.freePlaces i v).card
  live_holds : ∀ p ∈ u.live, ∃ lo hi, u.heap.Holds p lo hi
  live_nodup : u.live.Nodup
  live_apart : ∀ p ∈ u.live, ∀ q ∈ u.live, p ≠ q → ∀ lo hi lo' hi', u.heap.Holds p lo hi →
    u.heap.Holds q lo' hi' → hi ≤ lo' ∨ hi' ≤ lo
  runs : ∀ v n, (v, n) ∈ u.runs ↔ ∃ a, u.heap.arenas v = some a ∧ pages a = n
  runs_nodup : u.runs.Nodup

theorem Kept.to_accounted {u : Used} (h : Kept u.heap u.live u.runs) : u.Accounted where
  blocks i v b hb := by
    by_cases hlive : b ∈ u.live
    · refine .inl ⟨hlive, ?_⟩
      obtain hlarge | ⟨j, w, hw, hnot⟩ := h.in_use b hlive
      · exact absurd hlarge (h.ok.not_large hb)
      · obtain ⟨rfl, -⟩ := h.ok.inArena_unique hb hw
        exact hnot
    · exact .inr ⟨hlive, List.count_eq_one_of_mem (h.ok.nodup i) ((h.blocks i v b hb).resolve_left hlive)⟩
  free := h.ok.free
  cnt v n i ha := (h.cnt v n i ha).2
  live_holds p hp := h.holds hp
  live_nodup := h.nodup
  live_apart p _ q _ hne lo hi lo' hi' hp hq := h.ok.holds_apart hp hq hne
  runs := h.runs_iff
  runs_nodup := h.runs_nodup

/-- After any calls, every block is in use or once in its free list, the counts of the arenas are those of their
    free blocks, and what the pointers in use hold is apart. `sys_malloc`, when `alloc_pages` succeeds, returns
    a new pointer; `sys_free` fails only where `free_pages` does, and gives back a run of pages that the heap
    has and that no other pointer in use lies in. -/
theorem heap_accounted {s0 : Heap} {cs : List Call} {u : Used} (h0 : s0.Init)
    (hreach : Run Used.Step ⟨s0, [], []⟩ cs u) :
    u.Accounted ∧
    (∀ size < 2 ^ 63,
      (∀ cnt, pagesAsked size u.heap = some cnt → ∃ v sp, allocPages cnt u.heap.space = .ok (some v, sp)) →
      ∃ p s', sysMalloc size u.heap = .ok (some p, s') ∧ p ∉ u.live ∧
        Used.Accounted ⟨s', p :: u.live, (mallocRun size u.heap).toList ++ u.runs⟩) ∧
    ∀ pml4, ∀ ptr ∈ u.live,
      (∀ e, sysFree pml4 ptr u.heap = .error e →
        ∃ v n, freeRun ptr u.heap = some (v, n) ∧ freePages pml4 v n u.heap.space = .error e) ∧
      (∀ s', sysFree pml4 ptr u.heap = .ok ((), s') → freeRun ptr u.heap = none →
        s'.space = u.heap.space) ∧
      ∀ v n, freeRun ptr u.heap = some (v, n) →
        (∀ s', sysFree pml4 ptr u.heap = .ok ((), s') →
          freePages pml4 v n u.heap.space = .ok ((), s'.space)) ∧
        (v, n) ∈ u.runs ∧ (v, n) ∉ u.runs.diff (freeRun ptr u.heap).toList ∧
        ∀ q ∈ u.live.erase ptr, ∀ lo hi, u.heap.Holds q lo hi → hi ≤ v ∨ v + 4096 * n ≤ lo := by
  have h : Kept u.heap u.live u.runs :=
    hreach.invariant (I := fun u => Kept u.heap u.live u.runs) (fun _ _ _ hI hstep => hI.step hstep) h0.kept
  refine ⟨h.to_accounted, fun size hsize hgot => ?_, fun pml4 ptr hptr => ?_⟩
  · obtain ⟨p, s', hcall, hnew, hkept⟩ := h.malloc hsize hgot
    exact ⟨p, s', hcall, hnew, Kept.to_accounted (u := ⟨s', _, _⟩) hkept⟩
  · obtain ⟨hnone, s1, hcall, hspace, -⟩ | ⟨v, n, t, hsome, hspace, hcall, -⟩ := h.free pml4 hptr
    · refine ⟨fun e he => ?_, fun s' hs' _ => ?_, fun v n hvn => ?_⟩
      · rw [hcall] at he
        cases he
      · rw [hcall] at hs'
        cases hs'
        exact hspace
      · rw [hnone] at hvn
        cases hvn
    · refine ⟨fun e he => ⟨v, n, hsome, hspace ▸ freePages_of_error (hcall ▸ he)⟩, fun s' _ hnone => ?_,
        fun v' n' hvn => ?_⟩
      · rw [hsome] at hnone
        cases hnone
      · rw [hsome] at hvn
        cases hvn
        obtain ⟨hmem, hapart⟩ := h.freeRun hptr hsome
        refine ⟨fun s' hs' => ?_, hmem, ?_, hapart⟩
        · obtain ⟨sp, hsp, rfl⟩ := freeArena_eq_ok.1 (hcall ▸ hs')
          exact hspace ▸ hsp
        · rw [hsome, Option.toList_some, List.diff_cons, List.diff_nil]
          exact fun hin => (h.runs_nodup.mem_erase_iff.1 hin).1 rfl

/-- Two blocks of an arena are asked for and the first is given back, and then one is asked for again. -/
theorem heap_accounted_kernelHeap : ∃ u p s',
    Run Used.Step ⟨kernelHeap, [], []⟩ [.malloc 1000, .malloc 1000, .free none 0xffff800000100010] u ∧
    u.live = [0xffff800000100410] ∧ u.Accounted ∧ sysMalloc 1000 u.heap = .ok (some p, s') ∧ p ∉ u.live := by
  obtain ⟨s1, s2, s3, h1, h2, h3, hasked⟩ : ∃ s1 s2 s3,
      sysMalloc 1000 kernelHeap = .ok (some 0xffff800000100010, s1) ∧
      sysMalloc 1000 s1 = .ok (some 0xffff800000100410, s2) ∧
      sysFree none 0xffff800000100010 s2 = .ok ((), s3) ∧ pagesAsked 1000 s3 = none :=
    ⟨_, _, _, rfl, rfl, rfl, rfl⟩
  have hrun : ∃ u, Run Used.Step ⟨kernelHeap, [], []⟩
      [.malloc 1000, .malloc 1000, .free none 0xffff800000100010] u ∧
      u.live = [0xffff800000100410] ∧ u.heap = s3 :=
    Run.exists_cons_and (.malloc (by decide) h1) <| Run.exists_cons_and (.malloc (by decide) h2) <|
      ⟨_, .single (.free (by simp) h3), rfl, rfl⟩
  obtain ⟨u, hrun, hlive, rfl⟩ := hrun
  obtain ⟨hacc, hmalloc, -⟩ := heap_accounted kernelHeap_init hrun
  obtain ⟨p, s', hcall, hnew, -⟩ := hmalloc 1000 (by decide) fun cnt hcnt => by
    rw [hasked] at hcnt
    cases hcnt
  exact ⟨u, p, s', hrun, hlive, hacc, hcall, hnew⟩

end Heap

end RecoverOS
