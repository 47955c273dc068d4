import RecoverOS.Memory.Accounting

set_option autoImplicit false

/-! # Page allocations that fail (`kernel/memory.c`)

`alloc_pages` gives up in two places: `vpool_alloc` finds no run of pages, or `palloc` has no frame for one of
them. -/

namespace RecoverOS

/-- A run of `cnt` clear bits. -/
def Bitmap.FreeRun (b : Bitmap) (cnt : Nat) : Prop :=
  ∃ i, i + cnt ≤ b.size ∧ ∀ j < cnt, bitmapRead b (i + j) = false

/-- The bitmaps have the same bits. -/
structure Bitmap.Same (b b' : Bitmap) : Prop where
  size : b'.size = b.size
  bits : ∀ i < b.size, bitmapRead b' i = bitmapRead b i

theorem Bitmap.Same.refl (b : Bitmap) : b.Same b := ⟨rfl, fun _ _ => rfl⟩

/-! ## `palloc` and the frames that are left -/

theorem palloc_eq_some {m m' : Memory} {p : Nat} (h : palloc m = .ok (some p, m')) :
    0 < m.freeFrames := by
  rw [Nat.pos_iff_ne_zero]
  intro hnone
  rw [palloc_none hnone] at h
  cases h

theorem palloc_eq_none {m m' : Memory} (h : palloc m = .ok (none, m')) : m.freeFrames = 0 := by
  cases halloc : bitmapAllocABit m.phy_pool.pool_bitmap with
  | none =>
      rw [bitmapAllocABit_eq_none] at halloc
      refine Finset.card_eq_zero.2 (Finset.filter_eq_empty_iff.2 fun i hi => ?_)
      rw [halloc i (Finset.mem_range.1 hi)]
      decide
  | some r =>
      unfold palloc at h
      rw [Prog.bind_of_ok (a := m) (t := m) rfl, halloc] at h
      cases h

/-! ## `bitmap_alloc` finds a run if there is one -/

section Search

variable {b t t' : Bitmap} {i j j' n cnt : Nat} {r : Option Nat}

/-- The inner loop has come over clear bits only, and stops early at a bit that is set. -/
theorem bitmapRunFrom_clear (h : bitmapRunFrom b i n j t = .ok (j', t'))
    (hclear : ∀ k < j, bitmapRead b (i + k) = false) :
    (∀ k < j', bitmapRead b (i + k) = false) ∧
      (j' = j + n ∨ j' < j + n ∧ i + j' < b.size ∧ bitmapRead b (i + j') = true) := by
  induction n generalizing j with
  | zero =>
      cases h
      exact ⟨hclear, .inl rfl⟩
  | succ n ih =>
      obtain ⟨⟨⟩, t1, hreq, h⟩ := Prog.bind_eq_ok.1 h
      obtain ⟨hin, rfl⟩ := Prog.require_eq_ok.1 hreq
      split at h
      · next hset =>
          cases h
          exact ⟨hclear, .inr ⟨by omega, hin, hset⟩⟩
      · next hbit =>
          have hclear' : ∀ k < j + 1, bitmapRead b (i + k) = false := by
            intro k hk
            by_cases hkj : k = j
            · rw [hkj]
              exact Bool.eq_false_iff.2 hbit
            · exact hclear k (by omega)
          obtain ⟨hall, hend⟩ := ih h hclear'
          refine ⟨hall, hend.imp (fun heq => by omega) fun hlt => ⟨by omega, hlt.2⟩⟩

/-- Without a run the bitmap stays; otherwise the bits of a run are set. -/
theorem bitmapAllocFrom_cases (h : bitmapAllocFrom b cnt n i b = .ok (r, t')) :
    (r = none ∧ t' = b) ∨ ∃ k, r = some k ∧ t' = bitmapSetRun b k true cnt ∧
      ∀ j < cnt, bitmapRead b (k + j) = false := by
  induction n generalizing i with
  | zero =>
      cases h
      exact .inl ⟨rfl, rfl⟩
  | succ n ih =>
      rw [bitmapAllocFrom] at h
      split at h
      · split at h
        · obtain ⟨j, t, hrun, h⟩ := Prog.bind_eq_ok.1 h
          obtain ⟨rfl, -, -⟩ := bitmapRunFrom_le hrun
          have hclear := (bitmapRunFrom_clear hrun fun k hk => absurd hk (Nat.not_lt_zero k)).1
          split at h
          · next hj =>
              subst hj
              cases h
              exact .inr ⟨i, rfl, rfl, hclear⟩
          · exact ih h
        · exact ih h
      · cases h
        exact .inl ⟨rfl, rfl⟩

/-- The search passes over no run. -/
theorem passes_no_run (h : bitmapAllocFrom b cnt n i b = .ok (r, t')) (hcnt : 0 < cnt)
    (hfuel : b.size ≤ i + n) {k : Nat} (hk : i ≤ k) (hin : k + cnt ≤ b.size)
    (hpast : ∀ k', r = some k' → k < k') : ∃ j < cnt, bitmapRead b (k + j) = true := by
  induction n generalizing i with
  | zero => omega
  | succ n ih =>
      rw [bitmapAllocFrom, if_pos (by omega)] at h
      split at h
      · obtain ⟨j, t, hrun, h⟩ := Prog.bind_eq_ok.1 h
        obtain ⟨ht, -, -⟩ := bitmapRunFrom_le hrun
        obtain ⟨-, hend⟩ := bitmapRunFrom_clear hrun fun k hk => absurd hk (Nat.not_lt_zero k)
        rw [ht] at h
        split at h
        · cases h
          have := hpast i rfl
          omega
        · next hj =>
            -- a start up to the set bit at `i + j` would have this bit in its run
            obtain ⟨hlt, -, hset⟩ := hend.resolve_left (by omega)
            by_cases hpast : i + j + 1 ≤ k
            · exact ih h (by omega) hpast
            · refine ⟨i + j - k, by omega, ?_⟩
              rwa [show k + (i + j - k) = i + j by omega]
      · next hset =>
          by_cases hik : i = k
          · refine ⟨0, hcnt, ?_⟩
            rw [Nat.add_zero, ← hik]
            exact Bool.of_not_eq_false hset
          · exact ih h (by omega) (by omega)

/-- `bitmap_alloc` returns -1 exactly when there is no run, and changes nothing then. -/
theorem bitmapAlloc_cases (h : bitmapAlloc cnt b = .ok (r, t')) (hcnt : 0 < cnt) :
    (r = none ∧ t' = b ∧ ¬ b.FreeRun cnt) ∨
      ∃ k, r = some k ∧ t' = bitmapSetRun b k true cnt ∧ k + cnt ≤ b.size ∧
        ∀ j < cnt, bitmapRead b (k + j) = false := by
  have h' : bitmapAllocFrom b cnt b.size 0 b = .ok (r, t') := h
  obtain ⟨rfl, ht⟩ | ⟨k, hr, ht, hclear⟩ := bitmapAllocFrom_cases h'
  · refine .inl ⟨rfl, ht, ?_⟩
    rintro ⟨k, hin, hclear⟩
    obtain ⟨j, hj, hset⟩ := passes_no_run h' hcnt (by omega) (Nat.zero_le k) hin nofun
    rw [hclear j hj] at hset
    cases hset
  · exact .inr ⟨k, hr, ht, (bitmapAllocFrom_inside h').2 k hr, hclear⟩

/-- Every bit of a run that was set is set. -/
theorem bitmapSetRun_read (b : Bitmap) (k cnt : Nat) {j : Nat} (hj : j < cnt) :
    bitmapRead (bitmapSetRun b k true cnt) (k + j) = true := by
  induction cnt with
  | zero => exact absurd hj (Nat.not_lt_zero j)
  | succ cnt ih =>
      rw [bitmapSetRun, bitmapRead_bitmapSet]
      split
      · rfl
      · exact ih (by omega)

/-- A bit that is set stays set. -/
theorem bitmapSetRun_keeps (b : Bitmap) (k cnt : Nat) {i : Nat} (hi : bitmapRead b i = true) :
    bitmapRead (bitmapSetRun b k true cnt) i = true := by
  induction cnt with
  | zero => exact hi
  | succ cnt ih =>
      rw [bitmapSetRun, bitmapRead_bitmapSet]
      split
      · rfl
      · exact ih

end Search

namespace Space

section Fail

variable {s s' : Space} {cnt : Nat}

/-- `alloc_pages` has no run of pages and changes nothing, or marks a run as taken. -/
theorem allocPages_cases {r : Option Nat} (h : allocPages cnt s = .ok (r, s')) (hcnt : 0 < cnt) :
    (r = none ∧ ¬ s.vpool.pool_bitmap.FreeRun cnt ∧ s' = s) ∨
      ∃ k, (∀ v, r = some v → v = k * 4096 + s.vpool.start) ∧ k + cnt ≤ s.vpool.pool_bitmap.size ∧
        s'.vpool = { s.vpool with pool_bitmap := bitmapSetRun s.vpool.pool_bitmap k true cnt } ∧
        ∀ j < cnt, bitmapRead s.vpool.pool_bitmap (k + j) = false := by
  obtain ⟨vaddr, s1, hv, h⟩ := Prog.bind_eq_ok.1 h
  obtain ⟨idx, s2, hidx, hv⟩ := Prog.bind_eq_ok.1 hv
  obtain ⟨b, hb, rfl⟩ := Prog.zoom_eq_ok.1 hidx
  obtain ⟨s3, s4, hget, hv⟩ := Prog.bind_eq_ok.1 hv
  obtain ⟨rfl, rfl⟩ := Prog.get_eq_ok.1 hget
  obtain ⟨rfl, rfl⟩ := Prog.pure_eq_ok.1 hv
  obtain ⟨rfl, rfl, hnone⟩ | ⟨k, rfl, rfl, hin, hclear⟩ := bitmapAlloc_cases hb hcnt
  · obtain ⟨rfl, rfl⟩ := Prog.pure_eq_ok.1 h
    exact .inl ⟨rfl, hnone, rfl⟩
  · obtain ⟨ok, s5, hrun, h⟩ := Prog.bind_eq_ok.1 h
    obtain ⟨rfl, rfl⟩ := Prog.pure_eq_ok.1 h
    obtain ⟨mem, -, rfl⟩ := Prog.zoom_eq_ok.1 hrun
    refine .inr ⟨k, fun v hv => ?_, hin, rfl, hclear⟩
    split at hv
    · exact (Option.some.inj hv).symm
    · cases hv

/-- An `alloc_pages` that fails has no run of pages and changes nothing, or has marked a run as taken. -/
theorem allocPages_none (h : allocPages cnt s = .ok (none, s')) (hcnt : 0 < cnt) :
    (¬ s.vpool.pool_bitmap.FreeRun cnt ∧ s' = s) ∨
      ∃ k, k + cnt ≤ s.vpool.pool_bitmap.size ∧ ∀ j < cnt,
        bitmapRead s.vpool.pool_bitmap (k + j) = false ∧ bitmapRead s'.vpool.pool_bitmap (k + j) = true := by
  obtain ⟨-, hnone⟩ | ⟨k, -, hin, hset, hclear⟩ := allocPages_cases h hcnt
  · exact .inl hnone
  · exact .inr ⟨k, hin, fun j hj => ⟨hclear j hj, by rw [hset]; exact bitmapSetRun_read _ k cnt hj⟩⟩

end Fail

/-! ## Without frames -/

/-- `k_v_pool` after `mem_init`, on a machine all of whose frames are taken. -/
def noFrames : Space :=
  { kernelPool with mem := { kernelPool.mem with phy_pool := { kernelPool.mem.phy_pool with
      pool_bitmap := { kernelPool.mem.phy_pool.pool_bitmap with bits := fun _ => 0xff } } } }

theorem noFrames_palloc : palloc noFrames.mem = .ok (none, noFrames.mem) := by
  have hread : ∀ i, bitmapRead noFrames.mem.phy_pool.pool_bitmap i = true := by
    intro i
    have hbyte : ∀ k < 8, (0xff : Byte).getLsbD k = true := by decide
    rw [bitmapRead_eq_getLsbD]
    exact hbyte _ (Nat.mod_lt _ (by decide))
  refine palloc_none (Finset.card_eq_zero.2 (Finset.filter_eq_empty_iff.2 fun i _ => ?_))
  rw [hread]
  decide

/-- The bit of the first page is set, and there is no frame for it. -/
theorem noFrames_alloc : ∃ s', allocPages 1 noFrames = .ok (none, s') := by
  have hloop : allocPagesFrom 0xffff800000100000 1 0 noFrames.mem = .ok (false, noFrames.mem) := by
    rw [allocPagesFrom, Prog.bind_of_ok noFrames_palloc]
    rfl
  refine ⟨{ noFrames with vpool := { noFrames.vpool with
    pool_bitmap := bitmapSetRun noFrames.vpool.pool_bitmap 0 true 1 } }, ?_⟩
  have hpool : vpoolAlloc 1 noFrames = .ok (some 0xffff800000100000, { noFrames with vpool := {
    noFrames.vpool with pool_bitmap := bitmapSetRun noFrames.vpool.pool_bitmap 0 true 1 } }) := rfl
  rw [allocPages, Prog.bind_of_ok hpool]
  have hmem : onMem (allocPagesFrom 0xffff800000100000 1 0) { noFrames with vpool := { noFrames.vpool with
      pool_bitmap := bitmapSetRun noFrames.vpool.pool_bitmap 0 true 1 } } =
      .ok (false, { noFrames with vpool := { noFrames.vpool with
        pool_bitmap := bitmapSetRun noFrames.vpool.pool_bitmap 0 true 1 } }) :=
    Prog.zoom_eq_ok.2 ⟨_, hloop, rfl⟩
  exact (Prog.bind_of_ok hmem _).trans rfl

end Space

end RecoverOS
