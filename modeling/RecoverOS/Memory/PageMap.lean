import RecoverOS.Base.Prog
import RecoverOS.LibKernel.Bitmap
import RecoverOS.Memory.Paging
import Mathlib.Data.Finset.Card
import Mathlib.Tactic.IntervalCases

set_option autoImplicit false

/-! # Page tables (`kernel/memory.c`)

The kernel reads and writes the page tables through the tables themselves: entry 511 of the pml4 refers
to the pml4, so that an address that starts with indices of 511 runs out of levels early and lands in a
table. The processor's walk is `Paging.translate`; the kernel runs with write protection off for its own
writes, and an absent entry is not cached, so every access is one walk of the tables as they stand.

Not modelled: interrupts, which `palloc` turns off around the bitmap. -/

namespace RecoverOS

open Paging

/-- `struct phy_pool`. -/
structure PhyPool where
  start : Nat
  pool_bitmap : Bitmap

/-- The machine as the page-table code sees it; `cr3` is the frame of the pml4. -/
structure Memory where
  word : Phys
  cr3 : Nat
  phy_pool : PhyPool

namespace Memory

/-- The hardware translation of an address. -/
def translate (m : Memory) (vaddr : Nat) : Option Nat := Paging.translate m.word m.cr3 vaddr

/-- The table of level `k` for an address, and the entry in it. -/
def table (m : Memory) (vaddr k : Nat) : Option Nat := Paging.table m.word m.cr3 vaddr k

def entry (m : Memory) (vaddr k : Nat) : Option Nat := Paging.entry m.word m.cr3 vaddr k

end Memory

/-! ## Addresses of the entries -/

/-- `pml4e_idx`. -/
def pml4eIdx (addr : Nat) : Nat := (addr &&& 0xff8000000000) >>> 39

/-- `pdpte_idx`. -/
def pdpteIdx (addr : Nat) : Nat := (addr &&& 0x007fc0000000) >>> 30

/-- `pde_idx`. -/
def pdeIdx (addr : Nat) : Nat := (addr &&& 0x3fe00000) >>> 21

/-- `pte_idx`. -/
def pteIdx (addr : Nat) : Nat := (addr &&& 0x1ff000) >>> 12

/-- `pml4e_ptr`. -/
def pml4ePtr (vaddr : Nat) : Nat := 0xfffffffffffff000 + pml4eIdx vaddr * 8

/-- `pdpte_ptr`. -/
def pdptePtr (vaddr : Nat) : Nat :=
  0xffffffffffe00000 + (pml4eIdx vaddr <<< 12) + pdpteIdx vaddr * 8

/-- `pde_ptr`. -/
def pdePtr (vaddr : Nat) : Nat :=
  0xffffffffc0000000 + (pml4eIdx vaddr <<< 21) + (pdpteIdx vaddr <<< 12) + pdeIdx vaddr * 8

/-- `pte_ptr`. -/
def ptePtr (vaddr : Nat) : Nat :=
  0xffffff8000000000 + (pml4eIdx vaddr <<< 30) + (pdpteIdx vaddr <<< 21) + (pdeIdx vaddr <<< 12)
    + pteIdx vaddr * 8

/-- The array `fu` of the four functions. -/
def fu : Nat → Nat → Nat
  | 0 => pml4ePtr
  | 1 => pdptePtr
  | 2 => pdePtr
  | _ => ptePtr

/-! ## Memory through the walk -/

/-- `*vaddr` for a 64-bit word; an address with no translation is a page fault. -/
def load (vaddr : Nat) : Prog Memory Nat := do
  let m ← Prog.get
  let p ← Prog.ofOption (m.translate vaddr)
  pure (m.word (p / 4096) (p % 4096 / 8))

/-- `*vaddr = value` for a 64-bit word. -/
def store (vaddr value : Nat) : Prog Memory Unit := do
  let m ← Prog.get
  let p ← Prog.ofOption (m.translate vaddr)
  Prog.modify fun m => { m with word := setWord m.word (p / 4096) (p % 4096 / 8) (value % 2 ^ 64) }

/-- `memset(page, 0, PG_SIZE)` for a page-aligned address. -/
def memsetPage (page : Nat) : Prog Memory Unit := do
  let m ← Prog.get
  let p ← Prog.ofOption (m.translate page)
  Prog.modify fun m => { m with word := zeroFrame m.word (p / 4096) }

/-! ## The functions -/

/-- `addr_v2p`. -/
def addrV2p (vaddr : Nat) : Prog Memory Nat := do
  let pte ← load (ptePtr vaddr)
  pure (((pte &&& 0xfffffffffffff000) + (vaddr &&& 0xfff)) % 2 ^ 64)

/-- `palloc`; `none` stands for `NULL`. -/
def palloc : Prog Memory (Option Nat) := do
  let m ← Prog.get
  match bitmapAllocABit m.phy_pool.pool_bitmap with
  | none => pure none
  | some (idx, btmp) => do
      Prog.modify fun m => { m with phy_pool := { m.phy_pool with pool_bitmap := btmp } }
      pure (some ((m.phy_pool.start + 4096 * idx) % 2 ^ 64))

/-- The loop of `map_stat`, from level `i` on with `n` levels left. -/
def mapStatFrom (vaddr : Nat) : Nat → Nat → Prog Memory Nat
  | 0, _ => pure 4
  | n + 1, i => do
      let e ← load (fu i vaddr)
      if e &&& 1 = 0 then pure i else mapStatFrom vaddr n (i + 1)

/-- `map_stat`: the first level whose entry is not present; 4 when all are. -/
def mapStat (vaddr : Nat) : Prog Memory Nat := mapStatFrom vaddr 4 0

/-- The loop of `page_map`, from level `stat` on with `n` tables still to link. -/
def pageMapFrom (vaddr : Nat) : Nat → Nat → Prog Memory Unit
  | 0, _ => pure ()
  | n + 1, stat => do
      let pg_paddr ← palloc
      Prog.assert (pg_paddr ≠ none)
      store (fu stat vaddr) (pg_paddr.getD 0 + 7)
      memsetPage (fu (stat + 1) vaddr &&& 0xfffffffffffff000)
      pageMapFrom vaddr n (stat + 1)

/-- `page_map`. -/
def pageMap (vaddr paddr : Nat) : Prog Memory Unit := do
  let stat ← mapStat vaddr
  Prog.assert (stat ≠ 4)
  pageMapFrom vaddr (3 - stat) stat
  store (fu 3 vaddr) (paddr + 7)

/-! ## The address formulas -/

theorem shiftRight_mask (x n : Nat) : (x &&& (511 <<< n)) >>> n = x / 2 ^ n % 512 := by
  rw [Nat.shiftRight_and_distrib, Nat.shiftLeft_shiftRight, Nat.shiftRight_eq_div_pow]
  exact Nat.and_two_pow_sub_one_eq_mod _ 9

theorem pml4eIdx_eq (v : Nat) : pml4eIdx v = index v 0 := shiftRight_mask v 39

theorem pdpteIdx_eq (v : Nat) : pdpteIdx v = index v 1 := shiftRight_mask v 30

theorem pdeIdx_eq (v : Nat) : pdeIdx v = index v 2 := shiftRight_mask v 21

theorem pteIdx_eq (v : Nat) : pteIdx v = index v 3 := shiftRight_mask v 12

theorem index_lt (v k : Nat) : index v k < 512 := Nat.mod_lt _ (by decide)

/-- Clearing the low twelve bits of a 64-bit address. -/
theorem and_page_mask {x : Nat} (h : x < 2 ^ 64) : x &&& 0xfffffffffffff000 = 4096 * (x / 4096) := by
  have hmask : (0xfffffffffffff000 : Nat) = (2 ^ 52 - 1) <<< 12 := by decide
  have hpage : 4096 * (x / 4096) = (x >>> 12) <<< 12 := by
    rw [Nat.shiftLeft_eq, Nat.shiftRight_eq_div_pow, Nat.mul_comm]
  rw [hmask, hpage]
  apply Nat.eq_of_testBit_eq
  intro i
  simp only [Nat.testBit_and, Nat.testBit_shiftLeft, Nat.testBit_shiftRight,
    Nat.testBit_two_pow_sub_one]
  by_cases hi : 12 ≤ i
  · rw [show 12 + (i - 12) = i by omega]
    by_cases hlt : i < 64
    · simp [hi, show i - 12 < 52 by omega]
    · have hzero : x.testBit i = false :=
        Nat.testBit_lt_two_pow (lt_of_lt_of_le h (Nat.pow_le_pow_right (by decide) (by omega)))
      simp [hzero]
  · simp [hi]

/-- The address of the level-`k` entry of `v`: `4 - k` indices of 511, then the indices of `v` above
    level `k`, then the place of the entry in its table. -/
theorem fu_spec {k : Nat} (v : Nat) (hk : k ≤ 3) :
    (∀ j < 4 - k, index (fu k v) j = 511) ∧ (∀ j < k, index (fu k v) (4 - k + j) = index v j) ∧
      fu k v % 4096 = 8 * index v k ∧ Canonical (fu k v) ∧ fu k v < 2 ^ 64 := by
  have h0 := index_lt v 0
  have h1 := index_lt v 1
  have h2 := index_lt v 2
  have h3 := index_lt v 3
  have hcan : ∀ x, 2 ^ 64 - 2 ^ 47 ≤ x → x < 2 ^ 64 → Canonical x := fun x h h' => Or.inr ⟨h, h'⟩
  interval_cases k
  · simp only [fu, pml4ePtr, pml4eIdx_eq]
    refine ⟨fun j hj => ?_, fun j hj => absurd hj (by omega), by omega, hcan _ (by omega) (by omega),
      by omega⟩
    generalize index v 0 = i0 at h0
    interval_cases j <;> simp only [index] <;> omega
  · simp only [fu, pdptePtr, pml4eIdx_eq, pdpteIdx_eq, Nat.shiftLeft_eq]
    generalize hi0 : index v 0 = i0 at h0
    generalize index v 1 = i1 at h1
    refine ⟨fun j hj => ?_, fun j hj => ?_, by omega, hcan _ (by omega) (by omega), by omega⟩
    · interval_cases j <;> simp only [index] <;> omega
    · interval_cases j
      simp only [hi0]
      simp only [index]
      omega
  · simp only [fu, pdePtr, pml4eIdx_eq, pdpteIdx_eq, pdeIdx_eq, Nat.shiftLeft_eq]
    generalize hi0 : index v 0 = i0 at h0
    generalize hi1 : index v 1 = i1 at h1
    generalize index v 2 = i2 at h2
    refine ⟨fun j hj => ?_, fun j hj => ?_, by omega, hcan _ (by omega) (by omega), by omega⟩
    · interval_cases j <;> simp only [index] <;> omega
    · interval_cases j <;> (simp only [hi0, hi1]; simp only [index]; omega)
  · simp only [fu, ptePtr, pml4eIdx_eq, pdpteIdx_eq, pdeIdx_eq, pteIdx_eq, Nat.shiftLeft_eq]
    generalize hi0 : index v 0 = i0 at h0
    generalize hi1 : index v 1 = i1 at h1
    generalize hi2 : index v 2 = i2 at h2
    generalize index v 3 = i3 at h3
    refine ⟨fun j hj => ?_, fun j hj => ?_, by omega, hcan _ (by omega) (by omega), by omega⟩
    · interval_cases j
      simp only [index]
      omega
    · interval_cases j <;> (simp only [hi0, hi1, hi2]; simp only [index]; omega)

/-! ## Reaching the tables -/

section Access

variable {m m' : Memory} {v k f e stat : Nat}

/-- The walk of `fu[k](v)` ends at the level-`k` entry of `v`. -/
theorem translate_fu (hself : SelfMapped m.word m.cr3) (hk : k ≤ 3) (htab : m.table v k = some f) :
    m.translate (fu k v) = some (4096 * f + 8 * index v k) := by
  obtain ⟨h511, hidx, hoff, hcan, -⟩ := fu_spec v hk
  have hwalk := table_shift hself h511 hidx htab
  rw [show 4 - k + k = 4 by omega] at hwalk
  show Paging.translate m.word m.cr3 (fu k v) = _
  rw [Paging.translate, if_pos hcan, hwalk, Option.map_some, hoff]

/-- The walk of the page of `fu[k](v)` ends at the level-`k` table of `v`. -/
theorem translate_fu_page (hself : SelfMapped m.word m.cr3) (hk : k ≤ 3) (htab : m.table v k = some f) :
    m.translate (fu k v &&& 0xfffffffffffff000) = some (4096 * f) := by
  obtain ⟨h511, hidx, hoff, hcan, hlt⟩ := fu_spec v hk
  rw [and_page_mask hlt]
  have hindex : ∀ j < 4, index (4096 * (fu k v / 4096)) j = index (fu k v) j := by
    intro j hj
    interval_cases j <;> simp only [index] <;> omega
  have hwalk := table_shift (n := 4 - k) (a := 4096 * (fu k v / 4096)) hself
    (fun j hj => by rw [hindex j (by omega), h511 j hj])
    (fun j hj => by rw [hindex (4 - k + j) (by omega), hidx j hj]) htab
  rw [show 4 - k + k = 4 by omega] at hwalk
  have hcan' : Canonical (4096 * (fu k v / 4096)) := by
    unfold Canonical at hcan ⊢
    omega
  show Paging.translate m.word m.cr3 _ = _
  rw [Paging.translate, if_pos hcan', hwalk, Option.map_some, Nat.mul_mod_right, Nat.add_zero]

theorem load_fu (hself : SelfMapped m.word m.cr3) (hk : k ≤ 3) (htab : m.table v k = some f) :
    load (fu k v) m = .ok (m.word f (index v k), m) := by
  have hi := index_lt v k
  have hf : (4096 * f + 8 * index v k) / 4096 = f := by omega
  have hidx : 8 * index v k % 4096 / 8 = index v k := by omega
  simp [load, translate_fu hself hk htab, hf, hidx]

theorem store_fu (hself : SelfMapped m.word m.cr3) (hk : k ≤ 3) (htab : m.table v k = some f) :
    store (fu k v) e m
      = .ok ((), { m with word := setWord m.word f (index v k) (e % 2 ^ 64) }) := by
  have hi := index_lt v k
  have hf : (4096 * f + 8 * index v k) / 4096 = f := by omega
  have hidx : 8 * index v k % 4096 / 8 = index v k := by omega
  simp [store, translate_fu hself hk htab, hf, hidx]

theorem memsetPage_fu (hself : SelfMapped m.word m.cr3) (hk : k ≤ 3) (htab : m.table v k = some f) :
    memsetPage (fu k v &&& 0xfffffffffffff000) m = .ok ((), { m with word := zeroFrame m.word f }) := by
  simp [memsetPage, translate_fu_page hself hk htab]

theorem le_of_mapStatFrom {n i : Nat} (h : mapStatFrom v n i m = .ok (stat, m')) (hn : n + i = 4)
    (hne : stat ≠ 4) : i ≤ stat ∧ stat ≤ 3 := by
  induction n generalizing i m with
  | zero =>
      cases h
      exact absurd rfl hne
  | succ n ih =>
      simp only [mapStatFrom, Prog.bind_eq_ok] at h
      obtain ⟨e, m1, -, h⟩ := h
      by_cases he : e &&& 1 = 0
      · rw [if_pos he, Prog.pure_eq_ok] at h
        omega
      · rw [if_neg he] at h
        have := ih h (by omega)
        omega

/-- `map_stat` stops at an absent entry and changes nothing. -/
theorem mapStatFrom_spec {n i : Nat} (hself : SelfMapped m.word m.cr3)
    (h : mapStatFrom v n i m = .ok (stat, m')) (hn : n + i = 4) (hne : stat ≠ 4)
    (htab : m.table v stat = some f) : m' = m ∧ m.word f (index v stat) % 2 = 0 := by
  induction n generalizing i with
  | zero =>
      cases h
      exact absurd rfl hne
  | succ n ih =>
      have hle := le_of_mapStatFrom h hn hne
      obtain ⟨t, ht⟩ := table_of_le htab hle.1
      rw [mapStatFrom, Prog.bind_of_ok (load_fu hself (by omega) ht)] at h
      by_cases he : m.word t (index v i) &&& 1 = 0
      · rw [if_pos he, Prog.pure_eq_ok] at h
        obtain ⟨rfl, rfl⟩ := h
        have htf : t = f := Option.some.inj (ht.symm.trans htab)
        rw [Nat.and_one_is_mod] at he
        exact ⟨rfl, htf ▸ he⟩
      · rw [if_neg he] at h
        exact ih h (by omega)

/-- `addr_v2p` is the translation, where the entry of the page has no bit above the address. -/
theorem addrV2p_of_translate {q : Nat} (hself : SelfMapped m.word m.cr3)
    (h : m.translate v = some q) (he : m.entry v 3 = some e) (hlt : e < 2 ^ 52) :
    addrV2p v m = .ok (q, m) := by
  simp only [Memory.translate, Paging.translate] at h
  split at h
  · obtain ⟨g, hg, rfl⟩ := Option.map_eq_some_iff.1 h
    obtain ⟨t, ht, hlead⟩ := table_succ.1 hg
    obtain ⟨t', ht', rfl⟩ := Option.map_eq_some_iff.1 he
    have htt : t = t' := Option.some.inj (ht.symm.trans ht')
    subst htt
    obtain ⟨-, -, hframe⟩ := leads_eq_some.1 hlead
    have hload : load (ptePtr v) m = .ok (m.word t (index v 3), m) :=
      load_fu hself (Nat.le_refl 3) ht
    have hoff : v &&& 0xfff = v % 4096 := Nat.and_two_pow_sub_one_eq_mod v 12
    rw [addrV2p, Prog.bind_of_ok hload, and_page_mask (by omega), hoff, Prog.run_pure]
    congr 2
    omega
  · cases h

end Access

/-! ## `page_map` -/

namespace Memory

/-- The frames that `palloc` may return are page frames, and none is a table of the address space. -/
def PoolUnused (m : Memory) : Prop :=
  ∀ i < m.phy_pool.pool_bitmap.size, bitmapRead m.phy_pool.pool_bitmap i = false →
    ∃ g < 2 ^ 40, m.phy_pool.start + 4096 * i = 4096 * g ∧ Fresh m.word m.cr3 g

/-- The number of frames that `palloc` may still return. -/
def freeFrames (m : Memory) : Nat :=
  ((Finset.range m.phy_pool.pool_bitmap.size).filter
    fun i => bitmapRead m.phy_pool.pool_bitmap i = false).card

/-- Frame `g`, bit `idx` of the pool, is free: a page frame that no walk reads as a table. -/
structure Unused (m : Memory) (idx g : Nat) : Prop where
  inside : idx < m.phy_pool.pool_bitmap.size
  clear : bitmapRead m.phy_pool.pool_bitmap idx = false
  lt : g < 2 ^ 40
  start_eq : m.phy_pool.start + 4096 * idx = 4096 * g
  fresh : Fresh m.word m.cr3 g

/-- The state once `palloc` has returned the frame of bit `idx`. -/
def takeFrame (m : Memory) (idx : Nat) : Memory :=
  { m with phy_pool := { m.phy_pool with pool_bitmap := bitmapSet m.phy_pool.pool_bitmap idx true } }

/-- The state once that frame, `g`, is an empty table in entry `i` of table `f`. -/
def linkFrame (m : Memory) (idx f i g : Nat) : Memory :=
  { m.takeFrame idx with word := link m.word f i (4096 * g + 7) g }

/-- What linking the tables of `v` from level `s` on does to the address space. -/
structure Linked (m m' : Memory) (v s : Nat) : Prop where
  cr3_eq : m'.cr3 = m.cr3
  self : SelfMapped m'.word m'.cr3
  /-- The walk of `v` now reaches the last level, and no further. -/
  reaches : ∃ f, m'.table v 3 = some f ∧ m'.word f (index v 3) % 2 = 0
  new : ∀ k < 3, s ≤ k → ∃ e, m'.entry v k = some e ∧ e % 8 = 7
  old : ∀ k < s, m'.entry v k = m.entry v k
  others : ∀ a, Follows m.word m.cr3 v s a →
    m'.table a 4 = m.table a 4 ∧ Follows m'.word m'.cr3 v 3 a

end Memory

section PageMap

variable {m : Memory} {v s f g : Nat}

/-- With a free frame left, `palloc` returns one. -/
theorem palloc_spec (hpool : m.PoolUnused) (hfree : 0 < m.freeFrames) :
    ∃ idx g, palloc m = .ok (some (4096 * g), m.takeFrame idx) ∧ m.Unused idx g := by
  cases halloc : bitmapAllocABit m.phy_pool.pool_bitmap with
  | none =>
      rw [bitmapAllocABit_eq_none] at halloc
      obtain ⟨i, hi⟩ := Finset.card_pos.1 hfree
      simp only [Finset.mem_filter, Finset.mem_range] at hi
      rw [halloc i hi.1] at hi
      exact absurd hi.2 (by decide)
  | some r =>
      obtain ⟨idx, btmp⟩ := r
      obtain ⟨hidx, hclear, rfl, -⟩ := bitmapAllocABit_eq_some halloc
      obtain ⟨g, hg, hstart, hfresh⟩ := hpool idx hidx hclear
      refine ⟨idx, g, ?_, hidx, hclear, hg, hstart, hfresh⟩
      have hlt : 4096 * g % 2 ^ 64 = 4096 * g := Nat.mod_eq_of_lt (by omega)
      simp only [palloc, Prog.bind_of_ok (Prog.get_eq_ok.2 ⟨rfl, rfl⟩), halloc,
        Prog.run_modify_bind, hstart, hlt, Prog.run_pure]
      rfl

/-- Without one, it returns `NULL`. -/
theorem palloc_none (hfree : m.freeFrames = 0) : palloc m = .ok (none, m) := by
  have halloc : bitmapAllocABit m.phy_pool.pool_bitmap = none := by
    rw [bitmapAllocABit_eq_none]
    intro i hi
    have hempty := Finset.filter_eq_empty_iff.1 (Finset.card_eq_zero.1 hfree) (Finset.mem_range.2 hi)
    simpa using hempty
  simp only [palloc, Prog.bind_of_ok (Prog.get_eq_ok.2 ⟨rfl, rfl⟩), halloc, Prog.run_pure]

/-- A frame that is taken is not returned again. -/
theorem Memory.Unused.rest {idx : Nat} (h : m.Unused idx g) (hpool : m.PoolUnused) {i : Nat}
    (hi : i < m.phy_pool.pool_bitmap.size)
    (hread : bitmapRead (bitmapSet m.phy_pool.pool_bitmap idx true) i = false) :
    ∃ g' < 2 ^ 40, g' ≠ g ∧ m.phy_pool.start + 4096 * i = 4096 * g' ∧ Fresh m.word m.cr3 g' := by
  rw [bitmapRead_bitmapSet] at hread
  split at hread
  · cases hread
  · next hne =>
      obtain ⟨g', hg', hstart', hfresh'⟩ := hpool i hi hread
      refine ⟨g', hg', ?_, hstart', hfresh'⟩
      have hstart := h.start_eq
      rintro rfl
      omega

variable (hself : SelfMapped m.word m.cr3) (htab : m.table v s = some f)
  (habs : m.word f (index v s) % 2 = 0)

include hself htab habs in
/-- One turn of the loop links one empty table. -/
theorem pageMapFrom_succ {n : Nat} (hs : s < 3) (hpool : m.PoolUnused) (hfree : 0 < m.freeFrames) :
    ∃ idx g, m.Unused idx g ∧
      pageMapFrom v (n + 1) s m = pageMapFrom v n (s + 1) (m.linkFrame idx f (index v s) g) := by
  obtain ⟨idx, g, hrun, hun⟩ := palloc_spec hpool hfree
  have hg := hun.lt
  have hlead : leads s (4096 * g + 7) = some g := leads_eq_some.2 (by omega)
  have hval : (4096 * g + 7) % 2 ^ 64 = 4096 * g + 7 := Nat.mod_eq_of_lt (by omega)
  have hstore := store_fu (m := m.takeFrame idx) (e := 4096 * g + 7) hself (by omega) htab
  have hself' : SelfMapped (setWord m.word f (index v s) (4096 * g + 7)) m.cr3 :=
    selfMapped_setWord hself habs
  have hnext := memsetPage_fu (m := { m.takeFrame idx with
    word := setWord m.word f (index v s) (4096 * g + 7) }) hself' (by omega)
    (table_setWord_next htab habs hlead)
  rw [hval] at hstore
  refine ⟨idx, g, hun, ?_⟩
  rw [pageMapFrom, Prog.bind_of_ok hrun, Prog.run_assert_bind (by simp), Option.getD_some,
    Prog.bind_of_ok hstore]
  exact Prog.bind_of_ok hnext _

theorem poolUnused_linkFrame {idx i : Nat} (hpool : m.PoolUnused) (hun : m.Unused idx g) :
    (m.linkFrame idx f i g).PoolUnused := by
  intro j hj hread
  obtain ⟨g', hg', hne, hstart, hfresh'⟩ := hun.rest hpool hj hread
  have hg := hun.lt
  have hlead : leads 0 (4096 * g + 7) = some g := leads_eq_some.2 (by omega)
  exact ⟨g', hg', hstart, hfresh'.link hne hlead⟩

include hself htab habs in
/-- The loop links the missing tables, down to the last level. -/
theorem pageMapFrom_spec {n : Nat} (hns : n + s = 3) (hpool : m.PoolUnused) (hfree : n ≤ m.freeFrames) :
    ∃ m', pageMapFrom v n s m = .ok ((), m') ∧ m.Linked m' v s := by
  induction n generalizing m s f with
  | zero =>
      obtain rfl : s = 3 := by omega
      exact ⟨m, rfl, {
        cr3_eq := rfl
        self := hself
        reaches := ⟨f, htab, habs⟩
        new := fun k hk hsk => absurd hsk (by omega)
        old := fun _ _ => rfl
        others := fun _ h => ⟨rfl, h⟩ }⟩
  | succ n ih =>
      obtain ⟨idx, g, hun, hrun⟩ :=
        pageMapFrom_succ (n := n) hself htab habs (by omega) hpool (by omega)
      have hg := hun.lt
      have hlead : leads s (4096 * g + 7) = some g := leads_eq_some.2 (by omega)
      have hcard : (m.linkFrame idx f (index v s) g).freeFrames + 1 = m.freeFrames :=
        Bitmap.card_clear_set hun.inside hun.clear
      have habs1 : link m.word f (index v s) (4096 * g + 7) g g (index v (s + 1)) % 2 = 0 := by
        rw [link_apply, if_pos rfl]
      obtain ⟨m', hrest, hlinked⟩ := ih (m := m.linkFrame idx f (index v s) g)
        (selfMapped_link hself habs hun.fresh)
        (table_link_next (by omega) htab habs hun.fresh hlead)
        habs1 (by omega) (poolUnused_linkFrame hpool hun) (by omega)
      have hentry := entry_link_self (e := 4096 * g + 7) (by omega) htab habs hun.fresh
      refine ⟨m', hrun.trans hrest, {
        cr3_eq := hlinked.cr3_eq
        self := hlinked.self
        reaches := hlinked.reaches
        new := fun k hk hsk => ?_
        old := fun k hk => (hlinked.old k (by omega)).trans (hentry.1 k hk)
        others := fun a ha => ?_ }⟩
      · by_cases hks : k = s
        · subst hks
          exact ⟨_, (hlinked.old k (by omega)).trans hentry.2, by omega⟩
        · exact hlinked.new k hk (by omega)
      · obtain ⟨hsame, hnext⟩ := follows_link (by omega) htab habs hun.fresh hlead ha
        obtain ⟨hsame', hfollows'⟩ := hlinked.others a hnext
        exact ⟨hsame'.trans hsame, hfollows'⟩

/-- Canonical addresses with the same four indices are in the same page. -/
theorem page_eq_of_index {a v : Nat} (ha : Canonical a) (hv : Canonical v)
    (h : ∀ i ≤ 3, index a i = index v i) : a / 4096 = v / 4096 := by
  have h0 := h 0 (by omega)
  have h1 := h 1 (by omega)
  have h2 := h 2 (by omega)
  have h3 := h 3 (by omega)
  simp only [index] at h0 h1 h2 h3
  unfold Canonical at ha hv
  omega

/-- The last store of `page_map`: `v` is mapped, and the walks that do not read its entry are as they
    were. -/
theorem store_spec {p : Nat} (hself : SelfMapped m.word m.cr3) (htab : m.table v 3 = some f)
    (habs : m.word f (index v 3) % 2 = 0) (hv : Canonical v) (hp : p % 4096 = 0) (hlt : p < 2 ^ 52) :
    ∃ m', store (fu 3 v) (p + 7) m = .ok ((), m') ∧ m'.translate v = some (p + v % 4096) ∧
      (∀ k < 3, m'.entry v k = m.entry v k) ∧ m'.entry v 3 = some (p + 7) ∧
      ∀ a, a / 4096 ≠ v / 4096 → Follows m.word m.cr3 v 3 a → m'.translate a = m.translate a := by
  have hval : (p + 7) % 2 ^ 64 = p + 7 := Nat.mod_eq_of_lt (by omega)
  have hlead : leads 3 (p + 7) = some (p / 4096) := leads_eq_some.2 (by omega)
  have hbefore := table_setWord_self (e := p + 7) htab habs
  refine ⟨_, (store_fu hself (Nat.le_refl 3) htab).trans (by rw [hval]), ?_, fun k hk => ?_, ?_,
    fun a hpage hfollows => ?_⟩
  · show Paging.translate (setWord m.word f (index v 3) (p + 7)) m.cr3 v = _
    rw [Paging.translate, if_pos hv, table_setWord_next htab habs hlead, Option.map_some]
    congr 1
    omega
  · show Paging.entry (setWord m.word f (index v 3) (p + 7)) m.cr3 v k = Paging.entry m.word m.cr3 v k
    obtain ⟨t, ht⟩ := table_of_le htab (Nat.le_of_lt hk)
    have hne : ¬ (t = f ∧ index v k = index v 3) := fun h => ne_of_lt htab habs k hk (h.1 ▸ ht) h.2
    rw [Paging.entry, Paging.entry, hbefore k (Nat.le_of_lt hk), ht, Option.map_some, Option.map_some,
      setWord_ne hne]
  · show Paging.entry (setWord m.word f (index v 3) (p + 7)) m.cr3 v 3 = _
    rw [Paging.entry, hbefore 3 (Nat.le_refl 3), show Paging.table m.word m.cr3 v 3 = some f from htab,
      Option.map_some, setWord_apply, if_pos ⟨rfl, rfl⟩]
  · show Paging.translate (setWord m.word f (index v 3) (p + 7)) m.cr3 a = Paging.translate _ _ a
    unfold Paging.translate
    by_cases ha : Canonical a
    · have hmiss : ∀ j ≤ 3, Paging.table m.word m.cr3 a j = some f → index a j ≠ index v 3 := by
        intro j hj hf hi
        exact hpage (page_eq_of_index ha hv (hfollows f htab j hj hf hi).2)
      rw [if_pos ha, if_pos ha, table_setWord_of_ne hmiss 4 (Nat.le_refl 4)]
    · rw [if_neg ha, if_neg ha]

end PageMap

/-- Where the pml4 refers to itself, the address `fu[k](v)` is that of the level-`k` entry of `v`.
    `page_map` then maps its page, every entry it makes being present, writable and for user mode, and
    leaves every other page as it was that does not share the entry it fills by another path; and
    `addr_v2p` is the translation. -/
theorem Memory.recursive_mapping (m : Memory) (hself : SelfMapped m.word m.cr3) :
    (∀ v k f, k ≤ 3 → m.table v k = some f → m.translate (fu k v) = some (4096 * f + 8 * index v k)) ∧
    (∀ v p stat, Canonical v → p % 4096 = 0 → p < 2 ^ 52 → mapStat v m = .ok (stat, m) → stat ≠ 4 →
      m.table v stat ≠ none → m.PoolUnused → 3 - stat ≤ m.freeFrames →
      ∃ m', pageMap v p m = .ok ((), m') ∧ m'.translate v = some (p + v % 4096) ∧
        m'.entry v 3 = some (p + 7) ∧ (∀ k < stat, m'.entry v k = m.entry v k) ∧
        (∀ k ≤ 3, stat ≤ k → ∃ e, m'.entry v k = some e ∧ e % 8 = 7) ∧
        ∀ a, a / 4096 ≠ v / 4096 → Follows m.word m.cr3 v stat a → m'.translate a = m.translate a) ∧
    (∀ v q e, m.translate v = some q → m.entry v 3 = some e → e < 2 ^ 52 →
      addrV2p v m = .ok (q, m)) := by
  refine ⟨fun v k f hk htab => translate_fu hself hk htab, ?_,
    fun v q e h he hlt => addrV2p_of_translate hself h he hlt⟩
  intro v p stat hv hp hlt hstat hne htab hpool hfree
  obtain ⟨f, htab⟩ := Option.ne_none_iff_exists'.1 htab
  have hle := le_of_mapStatFrom hstat rfl hne
  have habs := (mapStatFrom_spec hself hstat rfl hne htab).2
  obtain ⟨m1, hrun, hlinked⟩ :=
    pageMapFrom_spec hself htab habs (n := 3 - stat) (by omega) hpool hfree
  obtain ⟨f1, htab1, habs1⟩ := hlinked.reaches
  obtain ⟨m', hstore, htrans, hold, hlast, hothers⟩ :=
    store_spec hlinked.self htab1 habs1 hv hp hlt
  refine ⟨m', ?_, htrans, hlast, fun k hk => ?_, fun k hk hsk => ?_, fun a hpage hfollows => ?_⟩
  · rw [pageMap, Prog.bind_of_ok hstat, Prog.run_assert_bind hne, Prog.bind_of_ok hrun, hstore]
  · rw [hold k (by omega), hlinked.old k hk]
  · by_cases hk3 : k = 3
    · subst hk3
      exact ⟨p + 7, hlast, by omega⟩
    · rw [hold k (by omega)]
      exact hlinked.new k (by omega) hsk
  · obtain ⟨hsame, hfollows1⟩ := hlinked.others a hfollows
    rw [hothers a hpage hfollows1]
    show Paging.translate m1.word m1.cr3 a = Paging.translate m.word m.cr3 a
    unfold Paging.translate
    rw [show Paging.table m1.word m1.cr3 a 4 = Paging.table m.word m.cr3 a 4 from hsame]

/-! ## The tables the kernel starts with -/

/-- The page tables that `boot.asm` builds over cleared memory, with the pool of `mem_pool_init`. The
    first megabyte is mapped twice, by entries 0 and 256 of the pml4. -/
def bootMemory : Memory where
  word t j :=
    if t = 0x100 then if j = 0 ∨ j = 256 then 0x101007 else if j = 511 then 0x100007 else 0
    else if t = 0x101 ∧ j = 0 then 0x102007
    else if t = 0x102 ∧ j = 0 then 0x103007
    else if t = 0x103 ∧ j < 256 then 4096 * j + 7
    else 0
  cr3 := 0x100
  phy_pool := {
    start := 0x104000
    pool_bitmap := { bytes_len := (0x40000000 / 4096 - 0x104) / 8, bits := Buf.zero } }

theorem bootMemory_selfMapped : SelfMapped bootMemory.word bootMemory.cr3 := rfl

/-- The tables of level `k` are among the first `k + 1`. -/
theorem bootMemory_table {v k t : Nat} (hk : k ≤ 3) (h : bootMemory.table v k = some t) :
    0x100 ≤ t ∧ t ≤ 0x100 + k := by
  induction k generalizing t with
  | zero =>
      cases h
      decide
  | succ k ih =>
      obtain ⟨f, hf, hlead⟩ := table_succ.1 h
      have hprev := ih (by omega) hf
      obtain ⟨hpres, -, rfl⟩ := leads_eq_some.1 hlead
      generalize index v k = i at hpres ⊢
      have hcases : f = 0x100 ∨ f = 0x101 ∨ f = 0x102 := by omega
      rcases hcases with rfl | rfl | rfl <;> simp only [bootMemory] at hpres ⊢ <;> split_ifs at hpres ⊢ <;>
        omega

theorem bootMemory_clear (i : Nat) : bitmapRead bootMemory.phy_pool.pool_bitmap i = false :=
  bitmapRead_of_zero rfl

theorem bootMemory_poolUnused : bootMemory.PoolUnused := by
  intro i hi _
  have hsize : i < 261880 := hi
  refine ⟨0x104 + i, by omega, ?_, fun a j hj h => ?_⟩
  · show 0x104000 + 4096 * i = 4096 * (0x104 + i)
    omega
  · have := bootMemory_table hj h
    omega

theorem bootMemory_freeFrames : bootMemory.freeFrames = 261880 := by
  have hall : (Finset.range bootMemory.phy_pool.pool_bitmap.size).filter
      (fun i => bitmapRead bootMemory.phy_pool.pool_bitmap i = false)
        = Finset.range bootMemory.phy_pool.pool_bitmap.size :=
    Finset.filter_true_of_mem fun i _ => bootMemory_clear i
  rw [Memory.freeFrames, hall, Finset.card_range]
  rfl

/-- Screen memory is mapped a second time under an empty pml4 entry, and keeps its first address. -/
theorem Memory.recursive_mapping_screen :
    bootMemory.translate (fu 3 0xb8000) = some 0x1035c0 ∧
    (∃ m', pageMap 0xffff900000000000 0xb8000 bootMemory = .ok ((), m') ∧
      m'.translate 0xffff900000000000 = some 0xb8000 ∧
      m'.translate 0xffff8000000b8000 = some 0xb8000) ∧
    addrV2p 0xb8000 bootMemory = .ok (0xb8000, bootMemory) := by
  obtain ⟨hptr, hmap, hv2p⟩ := Memory.recursive_mapping bootMemory bootMemory_selfMapped
  refine ⟨hptr 0xb8000 3 0x103 (by decide) rfl, ?_, hv2p 0xb8000 0xb8000 0xb8007 rfl rfl (by decide)⟩
  obtain ⟨m', hrun, htrans, -, -, -, hothers⟩ := hmap 0xffff900000000000 0xb8000 0 (by decide)
    (by decide) (by decide) rfl (by decide) (by decide) bootMemory_poolUnused
    (by rw [bootMemory_freeFrames]; decide)
  refine ⟨m', hrun, htrans, (hothers 0xffff8000000b8000 (by decide) ?_).trans rfl⟩
  intro f hf j hj htab hi
  cases hf
  interval_cases j
  · exact absurd hi (by decide)
  · exact absurd htab (by decide)
  · exact absurd htab (by decide)
  · exact absurd htab (by decide)

/-- The kernel's first heap page is in a table that the identity map shares, so mapping it also maps
    the page at `0x100000`; and where an entry has a bit above the physical address, `addr_v2p` returns
    it with the address. -/
theorem Memory.not_recursive_mapping_shared :
    (∃ m', mapStat 0xffff800000100000 bootMemory = .ok (3, bootMemory) ∧
      pageMap 0xffff800000100000 0x104000 bootMemory = .ok ((), m') ∧
      bootMemory.translate 0x100000 = none ∧ m'.translate 0x100000 = some 0x104000) ∧
    ∃ m, SelfMapped m.word m.cr3 ∧ m.translate 0 = some 0 ∧ addrV2p 0 m = .ok (2 ^ 52, m) :=
  ⟨⟨_, rfl, rfl, rfl, rfl⟩,
    { bootMemory with word := setWord bootMemory.word 0x103 0 (2 ^ 52 + 7) }, rfl, rfl, rfl⟩

end RecoverOS
