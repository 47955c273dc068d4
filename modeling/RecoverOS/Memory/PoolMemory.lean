import RecoverOS.Memory.FailedAlloc

set_option autoImplicit false

/-! # The memory behind the bitmap of a pool (`kernel/memory.h`)

`bits[V_POOL_BITS_MAX]` is a member of `struct virt_pool`, and `bytes_len` of the bitmap comes right behind it.
`bitmap_alloc` does not check `i + j`, so a run of clear bits at the end of `bits` goes on in `bytes_len`. -/

namespace RecoverOS

/-- `V_POOL_BITS_MAX`. -/
def V_POOL_BITS_MAX : Nat := 256

namespace PoolMemory

/-- The index reaches the word of `bytes_len`. -/
def InBytesLen (idx : Nat) : Prop := 8 * V_POOL_BITS_MAX ≤ idx ∧ idx < 8 * V_POOL_BITS_MAX + 64

/-- The index reaches the pointer `bits`, which is next. -/
def InPointer (idx : Nat) : Prop := 8 * V_POOL_BITS_MAX + 64 ≤ idx ∧ idx < 8 * V_POOL_BITS_MAX + 128

instance (idx : Nat) : Decidable (InBytesLen idx) := by unfold InBytesLen; infer_instance

instance (idx : Nat) : Decidable (InPointer idx) := by unfold InPointer; infer_instance

/-- `bitmap_read` on the bitmap of a pool. -/
def bitmapRead (b : Bitmap) (idx : Nat) : Bool :=
  if InBytesLen idx then b.bytes_len.testBit (idx - 8 * V_POOL_BITS_MAX) else RecoverOS.bitmapRead b idx

/-- `bitmap_set` to 1 on the bitmap of a pool. With another pointer in `bits` the next access would be elsewhere;
    the model stops before that. -/
def bitmapSet (idx : Nat) : Prog Bitmap Unit := do
  Prog.require (¬ InPointer idx)
  Prog.modify fun b =>
    if InBytesLen idx then { b with bytes_len := b.bytes_len ||| 2 ^ (idx - 8 * V_POOL_BITS_MAX) }
    else RecoverOS.bitmapSet b idx true

/-- The inner loop of `bitmap_alloc`: the value of `j` it ends with, with `n` turns left. -/
def bitmapRunFrom (b : Bitmap) (i : Nat) : Nat → Nat → Nat
  | 0, j => j
  | n + 1, j => if bitmapRead b (i + j) then j else bitmapRunFrom b i n (j + 1)

/-- The loop that sets the run, from `i + k` on with `n` bits left. -/
def bitmapSetRun (i : Nat) : Nat → Nat → Prog Bitmap Unit
  | 0, _ => pure ()
  | n + 1, k => do
      bitmapSet (i + k)
      bitmapSetRun i n (k + 1)

/-- The outer loop of `bitmap_alloc`, with fuel `n` for the indices still to try. -/
def bitmapAllocFrom (cnt : Nat) : Nat → Nat → Prog Bitmap (Option Nat)
  | 0, _ => pure none
  | n + 1, i => do
      let b ← Prog.get
      if i < b.size then
        if bitmapRead b i = false then
          let j := bitmapRunFrom b i cnt 0
          if j = cnt then do
            bitmapSetRun i cnt 0
            pure (some i)
          else bitmapAllocFrom cnt n (i + j + 1)
        else bitmapAllocFrom cnt n (i + 1)
      else pure none

/-- `bitmap_alloc` on the bitmap of a pool. -/
def bitmapAlloc (cnt : Nat) : Prog Bitmap (Option Nat) := do
  let b ← Prog.get
  bitmapAllocFrom cnt b.size 0

/-- `vpool_alloc`; `none` stands for `NULL`. -/
def vpoolAlloc (cnt : Nat) : Prog Space (Option Nat) := do
  let idx ← onPool (bitmapAlloc cnt)
  let s ← Prog.get
  pure (idx.map fun idx => idx * 4096 + s.vpool.start)

/-- `alloc_pages`; `none` stands for `NULL`. -/
def allocPages (cnt : Nat) : Prog Space (Option Nat) := do
  let vaddr ← vpoolAlloc cnt
  match vaddr with
  | none => pure none
  | some v => do
      let ok ← onMem (allocPagesFrom v cnt 0)
      pure (if ok then some v else none)

/-- `cnt` clear bits from a bit of the bitmap on, whether or not the last of them is still in the bitmap. -/
def FreeRun (b : Bitmap) (cnt : Nat) : Prop := ∃ i < b.size, ∀ j < cnt, bitmapRead b (i + j) = false

/-- The bitmaps have the same bits. -/
structure Same (b b' : Bitmap) : Prop where
  size : b'.size = b.size
  bits : ∀ i < b.size, bitmapRead b' i = bitmapRead b i

section Search

variable {b b' : Bitmap} {i j k n cnt idx : Nat} {r : Option Nat}

/-- Inside `bits` nothing is different. -/
theorem bitmapRead_of_lt (h : idx < 8 * V_POOL_BITS_MAX) : bitmapRead b idx = RecoverOS.bitmapRead b idx :=
  if_neg fun hidx => absurd hidx.1 (Nat.not_le.2 h)

/-- Bit 8 of a `bytes_len` of 256 is set. -/
theorem bitmapRead_full (hlen : b.bytes_len = V_POOL_BITS_MAX) :
    bitmapRead b (8 * V_POOL_BITS_MAX + 8) = true := by
  unfold bitmapRead
  rw [if_pos (by decide), hlen]
  decide

/-- A bit that has been set is set. -/
theorem bitmapSet_self (h : bitmapSet idx b = .ok ((), b')) : bitmapRead b' idx = true := by
  obtain ⟨⟨⟩, b1, hreq, h⟩ := Prog.bind_eq_ok.1 h
  obtain ⟨-, rfl⟩ := Prog.require_eq_ok.1 hreq
  rw [Prog.modify_eq_ok.1 h]
  unfold bitmapRead
  by_cases hidx : InBytesLen idx
  · rw [if_pos hidx, if_pos hidx, Nat.testBit_or, Nat.testBit_two_pow_self, Bool.or_true]
  · rw [if_neg hidx, if_neg hidx, bitmapRead_bitmapSet_self]

/-- A bit that is set stays set. -/
theorem bitmapSet_keeps (h : bitmapSet idx b = .ok ((), b')) (hi : bitmapRead b i = true) :
    bitmapRead b' i = true := by
  obtain ⟨⟨⟩, b1, hreq, h⟩ := Prog.bind_eq_ok.1 h
  obtain ⟨-, rfl⟩ := Prog.require_eq_ok.1 hreq
  rw [Prog.modify_eq_ok.1 h]
  unfold bitmapRead at hi ⊢
  by_cases hin : InBytesLen i
  · rw [if_pos hin] at hi ⊢
    split
    · rw [Nat.testBit_or, hi, Bool.true_or]
    · exact hi
  · rw [if_neg hin] at hi ⊢
    split
    · exact hi
    · rw [bitmapRead_bitmapSet]
      split
      · rfl
      · exact hi

/-- What was set stays set while the run is being set. -/
theorem bitmapSetRun_keeps (h : bitmapSetRun i n k b = .ok ((), b')) (hi : bitmapRead b j = true) :
    bitmapRead b' j = true := by
  induction n generalizing k b with
  | zero =>
      obtain ⟨-, rfl⟩ := Prog.pure_eq_ok.1 h
      exact hi
  | succ n ih =>
      obtain ⟨⟨⟩, b1, hset, h⟩ := Prog.bind_eq_ok.1 h
      exact ih h (bitmapSet_keeps hset hi)

/-- The first bit of the run is set. -/
theorem bitmapSetRun_first (h : bitmapSetRun i n 0 b = .ok ((), b')) (hn : 0 < n) : bitmapRead b' i = true := by
  obtain ⟨n, rfl⟩ := Nat.exists_eq_succ_of_ne_zero hn.ne'
  obtain ⟨⟨⟩, b1, hset, h⟩ := Prog.bind_eq_ok.1 h
  exact bitmapSetRun_keeps h (bitmapSet_self hset)

/-- Below the pointer every run can be set. -/
theorem bitmapSetRun_returns (h : i + (k + n) ≤ 8 * V_POOL_BITS_MAX + 64) :
    ∃ b', bitmapSetRun i n k b = .ok ((), b') := by
  induction n generalizing k b with
  | zero => exact ⟨b, rfl⟩
  | succ n ih =>
      have hptr : ¬ InPointer (i + k) := fun hptr => by
        have := hptr.1
        omega
      rw [bitmapSetRun, bitmapSet, Prog.bind_of_ok (Prog.run_require_bind hptr _ _)]
      exact ih (by omega)

/-- The inner loop comes over clear bits only, and stops early at a bit that is set. -/
theorem bitmapRunFrom_clear (hclear : ∀ k < j, bitmapRead b (i + k) = false) :
    (∀ k < bitmapRunFrom b i n j, bitmapRead b (i + k) = false) ∧
      (bitmapRunFrom b i n j = j + n ∨
        bitmapRunFrom b i n j < j + n ∧ bitmapRead b (i + bitmapRunFrom b i n j) = true) := by
  induction n generalizing j with
  | zero => exact ⟨hclear, .inl rfl⟩
  | succ n ih =>
      rw [bitmapRunFrom]
      split
      · next hset => exact ⟨hclear, .inr ⟨by omega, hset⟩⟩
      · next hbit =>
          have hclear' : ∀ k < j + 1, bitmapRead b (i + k) = false := by
            intro k hk
            by_cases hkj : k = j
            · rw [hkj]
              exact Bool.eq_false_iff.2 hbit
            · exact hclear k (by omega)
          obtain ⟨hall, hend⟩ := ih hclear'
          exact ⟨hall, hend.imp (fun heq => by omega) fun hlt => ⟨by omega, hlt.2⟩⟩

theorem bitmapRunFrom_spec (b : Bitmap) (i cnt : Nat) :
    (∀ k < bitmapRunFrom b i cnt 0, bitmapRead b (i + k) = false) ∧
      (bitmapRunFrom b i cnt 0 = cnt ∨
        bitmapRunFrom b i cnt 0 < cnt ∧ bitmapRead b (i + bitmapRunFrom b i cnt 0) = true) := by
  have h := bitmapRunFrom_clear (b := b) (i := i) (n := cnt) (j := 0) fun k hk => absurd hk (Nat.not_lt_zero k)
  rwa [Nat.zero_add] at h

/-- The search finds the first run, or has passed over no run. -/
theorem bitmapAllocFrom_cases (hcnt : 0 < cnt) (hfuel : b.size ≤ i + n) :
    (bitmapAllocFrom cnt n i b = .ok (none, b) ∧
        ∀ k, i ≤ k → k < b.size → ∃ j < cnt, bitmapRead b (k + j) = true) ∨
      ∃ k < b.size, (∀ j < cnt, bitmapRead b (k + j) = false) ∧
        bitmapAllocFrom cnt n i b = (do bitmapSetRun k cnt 0; pure (some k)) b := by
  induction n generalizing i with
  | zero => exact .inl ⟨rfl, fun k hk hin => by omega⟩
  | succ n ih =>
      have hget : bitmapAllocFrom cnt (n + 1) i b = _ := Prog.bind_of_ok (a := b) (t := b) rfl _
      by_cases hi : i < b.size
      · rw [if_pos hi] at hget
        by_cases hread : bitmapRead b i = false
        · rw [if_pos hread] at hget
          obtain ⟨hclear, hend⟩ := bitmapRunFrom_spec b i cnt
          by_cases hj : bitmapRunFrom b i cnt 0 = cnt
          · rw [hj] at hclear
            exact .inr ⟨i, hi, hclear, hget.trans (by rw [if_pos hj])⟩
          · obtain ⟨hlt, hset⟩ := hend.resolve_left hj
            have hnext : bitmapAllocFrom cnt (n + 1) i b =
                bitmapAllocFrom cnt n (i + bitmapRunFrom b i cnt 0 + 1) b := hget.trans (by rw [if_neg hj])
            rw [hnext]
            refine (ih (by omega)).imp (fun hnone => ⟨hnone.1, fun k hk hin => ?_⟩) id
            -- a start up to the set bit has this bit in its run
            by_cases hpast : i + bitmapRunFrom b i cnt 0 + 1 ≤ k
            · exact hnone.2 k hpast hin
            · refine ⟨i + bitmapRunFrom b i cnt 0 - k, by omega, ?_⟩
              rwa [show k + (i + bitmapRunFrom b i cnt 0 - k) = i + bitmapRunFrom b i cnt 0 by omega]
        · rw [if_neg hread] at hget
          rw [hget]
          refine (ih (by omega)).imp (fun hnone => ⟨hnone.1, fun k hk hin => ?_⟩) id
          by_cases hik : i = k
          · exact ⟨0, hcnt, by rw [Nat.add_zero, ← hik]; exact Bool.of_not_eq_false hread⟩
          · exact hnone.2 k (by omega) hin
      · rw [if_neg hi] at hget
        exact .inl ⟨hget, fun k hk hin => absurd (Nat.lt_of_le_of_lt hk hin) hi⟩

/-- `bitmap_alloc` returns -1 and changes nothing when there is no run, and sets the bits of a run otherwise. -/
theorem bitmapAlloc_cases (b : Bitmap) (hcnt : 0 < cnt) :
    (bitmapAlloc cnt b = .ok (none, b) ∧ ¬ FreeRun b cnt) ∨
      ∃ k < b.size, (∀ j < cnt, bitmapRead b (k + j) = false) ∧
        bitmapAlloc cnt b = (do bitmapSetRun k cnt 0; pure (some k)) b := by
  have hrun : bitmapAlloc cnt b = bitmapAllocFrom cnt b.size 0 b := Prog.bind_of_ok (a := b) (t := b) rfl _
  rw [hrun]
  refine (bitmapAllocFrom_cases hcnt (by omega)).imp (fun hnone => ⟨hnone.1, ?_⟩) id
  rintro ⟨k, hin, hclear⟩
  obtain ⟨j, hj, hset⟩ := hnone.2 k (Nat.zero_le k) hin
  rw [hclear j hj] at hset
  cases hset

/-- With the `bytes_len` that `virt_pool_init` stores, `bitmap_alloc` always returns: no run gets past bit 8 of
    `bytes_len`. -/
theorem bitmapAlloc_returns (hlen : b.bytes_len = V_POOL_BITS_MAX) (hcnt : 0 < cnt) :
    ∃ r b', bitmapAlloc cnt b = .ok (r, b') := by
  obtain ⟨hnone, -⟩ | ⟨k, hin, hclear, hrun⟩ := bitmapAlloc_cases b hcnt
  · exact ⟨none, b, hnone⟩
  · have hend : k + cnt ≤ 8 * V_POOL_BITS_MAX + 8 := by
      by_contra hlt
      have hsize : b.size = 8 * V_POOL_BITS_MAX := by rw [Bitmap.size, hlen]
      have hbit := hclear (8 * V_POOL_BITS_MAX + 8 - k) (by omega)
      rw [show k + (8 * V_POOL_BITS_MAX + 8 - k) = 8 * V_POOL_BITS_MAX + 8 by omega, bitmapRead_full hlen] at hbit
      cases hbit
    obtain ⟨b', hset⟩ := bitmapSetRun_returns (i := k) (k := 0) (n := cnt) (b := b) (by omega)
    exact ⟨some k, b', hrun.trans (Prog.bind_of_ok hset _)⟩

/-! ## Runs that end inside the bitmap -/

/-- Where the inner loop does not leave the bitmap, it is the loop of any bitmap. -/
theorem bitmapRunFrom_agrees (hlen : b.bytes_len ≤ V_POOL_BITS_MAX) {j' : Nat}
    (h : RecoverOS.bitmapRunFrom b i n j b = .ok (j', b')) : bitmapRunFrom b i n j = j' := by
  induction n generalizing j with
  | zero => exact (Prog.pure_eq_ok.1 h).1
  | succ n ih =>
      obtain ⟨⟨⟩, b1, hreq, h⟩ := Prog.bind_eq_ok.1 h
      obtain ⟨hin, rfl⟩ := Prog.require_eq_ok.1 hreq
      rw [bitmapRunFrom, bitmapRead_of_lt (Nat.lt_of_lt_of_le hin (Nat.mul_le_mul_left 8 hlen))]
      split at h
      · next hset =>
          rw [if_pos hset]
          exact (Prog.pure_eq_ok.1 h).1
      · next hbit =>
          rw [if_neg hbit]
          exact ih h

/-- A run inside `bits` is set as in any bitmap. -/
theorem bitmapSetRun_inside (hin : i + (k + n) ≤ 8 * V_POOL_BITS_MAX) :
    bitmapSetRun i n k (RecoverOS.bitmapSetRun b i true k) =
      .ok ((), RecoverOS.bitmapSetRun b i true (k + n)) := by
  induction n generalizing k with
  | zero => rfl
  | succ n ih =>
      have hlen : ¬ InBytesLen (i + k) := fun hidx => by
        have := hidx.1
        omega
      have hptr : ¬ InPointer (i + k) := fun hidx => by
        have := hidx.1
        omega
      have hset : bitmapSet (i + k) (RecoverOS.bitmapSetRun b i true k) =
          .ok ((), RecoverOS.bitmapSetRun b i true (k + 1)) := by
        rw [bitmapSet, Prog.run_require_bind hptr, Prog.run_modify, if_neg hlen]
        rfl
      rw [bitmapSetRun, Prog.bind_of_ok hset, ih (by omega), Nat.succ_add_eq_add_succ]

theorem bitmapAllocFrom_agrees (hlen : b.bytes_len ≤ V_POOL_BITS_MAX)
    (h : RecoverOS.bitmapAllocFrom b cnt n i b = .ok (r, b')) : bitmapAllocFrom cnt n i b = .ok (r, b') := by
  induction n generalizing i with
  | zero => exact h
  | succ n ih =>
      have hget : bitmapAllocFrom cnt (n + 1) i b = _ := Prog.bind_of_ok (a := b) (t := b) rfl _
      rw [hget]
      rw [RecoverOS.bitmapAllocFrom] at h
      by_cases hi : i < b.size
      · rw [if_pos hi, bitmapRead_of_lt (Nat.lt_of_lt_of_le hi (Nat.mul_le_mul_left 8 hlen))]
        rw [if_pos hi] at h
        split at h
        · next hread =>
            rw [if_pos hread]
            obtain ⟨j, b1, hrun, h⟩ := Prog.bind_eq_ok.1 h
            obtain ⟨ht, -, hin⟩ := bitmapRunFrom_le hrun
            rw [ht] at h
            rw [bitmapRunFrom_agrees hlen (ht ▸ hrun)]
            split at h
            · next hj =>
                rw [if_pos hj]
                obtain ⟨⟨⟩, b2, hset, h⟩ := Prog.bind_eq_ok.1 h
                obtain ⟨rfl, rfl⟩ := Prog.pure_eq_ok.1 h
                rw [Prog.modify_eq_ok.1 hset]
                have hbits : b.size ≤ 8 * V_POOL_BITS_MAX := Nat.mul_le_mul_left 8 hlen
                have hset' := bitmapSetRun_inside (b := b) (i := i) (k := 0) (n := cnt) (by omega)
                rw [Nat.zero_add] at hset'
                exact Prog.bind_of_ok hset' _
            · next hj =>
                rw [if_neg hj]
                exact ih h
        · next hread =>
            rw [if_neg hread]
            exact ih h
      · rw [if_neg hi] at h ⊢
        exact h

/-- Where the search does not leave the bitmap, it is that of any bitmap. -/
theorem bitmapAlloc_agrees (hlen : b.bytes_len ≤ V_POOL_BITS_MAX)
    (h : RecoverOS.bitmapAlloc cnt b = .ok (r, b')) : bitmapAlloc cnt b = .ok (r, b') := by
  have hrun : bitmapAlloc cnt b = bitmapAllocFrom cnt b.size 0 b := Prog.bind_of_ok (a := b) (t := b) rfl _
  rw [hrun]
  exact bitmapAllocFrom_agrees hlen h

end Search

section Fail

variable {s s' : Space} {cnt : Nat}

/-- Where the search does not leave the bitmap, `alloc_pages` is that of any pool. -/
theorem allocPages_agrees (hlen : s.vpool.pool_bitmap.bytes_len ≤ V_POOL_BITS_MAX) {r : Option Nat}
    (h : RecoverOS.allocPages cnt s = .ok (r, s')) : allocPages cnt s = .ok (r, s') := by
  obtain ⟨vaddr, s1, hv, h⟩ := Prog.bind_eq_ok.1 h
  obtain ⟨idx, s2, hidx, hv⟩ := Prog.bind_eq_ok.1 hv
  obtain ⟨b, hb, rfl⟩ := Prog.zoom_eq_ok.1 hidx
  have hidx' : onPool (bitmapAlloc cnt) s = .ok (idx, _) :=
    Prog.zoom_eq_ok.2 ⟨b, bitmapAlloc_agrees hlen hb, rfl⟩
  have hv' : vpoolAlloc cnt s = .ok (vaddr, s1) := (Prog.bind_of_ok hidx' _).trans hv
  exact (Prog.bind_of_ok hv' _).trans h

/-- An `alloc_pages` that fails has no run of pages and changes nothing, or has set a bit of the bitmap. -/
theorem allocPages_none (h : allocPages cnt s = .ok (none, s')) (hcnt : 0 < cnt) :
    (¬ FreeRun s.vpool.pool_bitmap cnt ∧ s' = s) ∨
      FreeRun s.vpool.pool_bitmap cnt ∧ ∃ k < s.vpool.pool_bitmap.size,
        bitmapRead s.vpool.pool_bitmap k = false ∧ bitmapRead s'.vpool.pool_bitmap k = true := by
  obtain ⟨vaddr, s1, hv, h⟩ := Prog.bind_eq_ok.1 h
  obtain ⟨idx, s2, hidx, hv⟩ := Prog.bind_eq_ok.1 hv
  obtain ⟨b, hb, rfl⟩ := Prog.zoom_eq_ok.1 hidx
  obtain ⟨s3, s4, hget, hv⟩ := Prog.bind_eq_ok.1 hv
  obtain ⟨rfl, rfl⟩ := Prog.get_eq_ok.1 hget
  obtain ⟨rfl, rfl⟩ := Prog.pure_eq_ok.1 hv
  obtain ⟨hnone, hrun⟩ | ⟨k, hin, hclear, halloc⟩ := bitmapAlloc_cases s.vpool.pool_bitmap hcnt
  · rw [hnone] at hb
    cases hb
    obtain ⟨-, rfl⟩ := Prog.pure_eq_ok.1 h
    exact .inl ⟨hrun, rfl⟩
  · obtain ⟨⟨⟩, b1, hset, hb⟩ := Prog.bind_eq_ok.1 (halloc ▸ hb)
    obtain ⟨rfl, rfl⟩ := Prog.pure_eq_ok.1 hb
    obtain ⟨ok, s5, hmem, h⟩ := Prog.bind_eq_ok.1 h
    obtain ⟨-, rfl⟩ := Prog.pure_eq_ok.1 h
    obtain ⟨mem, -, rfl⟩ := Prog.zoom_eq_ok.1 hmem
    exact .inr ⟨⟨k, hin, hclear⟩, k, hin, hclear 0 hcnt, bitmapSetRun_first hset hcnt⟩

end Fail

end PoolMemory

namespace Space

/-- The bitmaps of the pool and of the frames, and where the addresses of the pool lead, are as before. -/
structure NoTrace (s s' : Space) : Prop where
  vpool : PoolMemory.Same s.vpool.pool_bitmap s'.vpool.pool_bitmap
  phy_pool : s.mem.phy_pool.pool_bitmap.Same s'.mem.phy_pool.pool_bitmap
  translate : ∀ a, s.Addr a → s'.mem.translate a = s.mem.translate a

theorem not_noTrace_of_set {s s' : Space} {k : Nat} (hk : k < s.vpool.pool_bitmap.size)
    (hclear : PoolMemory.bitmapRead s.vpool.pool_bitmap k = false)
    (hset : PoolMemory.bitmapRead s'.vpool.pool_bitmap k = true) : ¬ NoTrace s s' := by
  intro htrace
  have hbits := htrace.vpool.bits k hk
  rw [hclear, hset] at hbits
  cases hbits

/-- A failed allocation leaves no trace exactly when the search found no run: when it is `palloc` that fails, the
    run stays taken. -/
theorem noTrace_iff {s s' : Space} {cnt : Nat} (h : PoolMemory.allocPages cnt s = .ok (none, s'))
    (hcnt : 0 < cnt) : NoTrace s s' ↔ ¬ PoolMemory.FreeRun s.vpool.pool_bitmap cnt := by
  obtain ⟨hnone, rfl⟩ | ⟨hrun, k, hk, hclear, hset⟩ := PoolMemory.allocPages_none h hcnt
  · exact ⟨fun _ => hnone, fun _ => ⟨⟨rfl, fun _ _ => rfl⟩, .refl _, fun _ _ => rfl⟩⟩
  · exact ⟨fun htrace => absurd htrace (not_noTrace_of_set hk hclear hset), fun hnone => absurd hrun hnone⟩

theorem noFrames_poolMemory : ∃ s', PoolMemory.allocPages 1 noFrames = .ok (none, s') := by
  obtain ⟨s', h⟩ := noFrames_alloc
  exact ⟨s', PoolMemory.allocPages_agrees (by decide) h⟩

theorem noTrace_noFrames : ∃ s', PoolMemory.allocPages 1 noFrames = .ok (none, s') ∧
    (NoTrace noFrames s' ↔ ¬ PoolMemory.FreeRun noFrames.vpool.pool_bitmap 1) := by
  obtain ⟨s', h⟩ := noFrames_poolMemory
  exact ⟨s', h, noTrace_iff h Nat.one_pos⟩

/-- The page stays taken. -/
theorem not_noTrace_noFrames :
    ∃ s', PoolMemory.allocPages 1 noFrames = .ok (none, s') ∧ ¬ NoTrace noFrames s' := by
  obtain ⟨s', h⟩ := noFrames_poolMemory
  refine ⟨s', h, ?_⟩
  obtain ⟨hnone, -⟩ | ⟨-, k, hk, hclear, hset⟩ := PoolMemory.allocPages_none h Nat.one_pos
  · refine absurd ⟨0, by decide, fun j hj => ?_⟩ hnone
    rw [PoolMemory.bitmapRead_of_lt (by rw [V_POOL_BITS_MAX]; omega)]
    exact bitmapRead_of_zero rfl
  · exact not_noTrace_of_set hk hclear hset

end Space

end RecoverOS
