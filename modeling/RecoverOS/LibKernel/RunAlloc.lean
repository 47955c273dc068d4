import RecoverOS.Memory.FailedAlloc
import Mathlib.Order.Bounds.Basic

set_option autoImplicit false

/-! # Runs of bits (`lib/kernel/bitmap.c`)

`bitmap_alloc` looks for the first run of clear bits. The inner loop looks at the bits of a run without asking
where the bitmap ends. -/

namespace RecoverOS

/-- The `cnt` bits from `i` on are bits of the bitmap, and clear. -/
def Bitmap.RunAt (b : Bitmap) (cnt i : Nat) : Prop :=
  i + cnt ≤ b.size ∧ ∀ j < cnt, bitmapRead b (i + j) = false

/-- `bitmap_alloc` looks at and sets bits of the bitmap only: it returns a run that was clear and sets it, or it
    returns -1 and changes nothing. -/
def Bitmap.StaysInside (b : Bitmap) (cnt : Nat) : Prop :=
  ∃ r t, bitmapAlloc cnt b = .ok (r, t) ∧
    (∀ idx, r = some idx → idx + cnt ≤ b.size ∧
      (∀ j < cnt, bitmapRead b (idx + j) = false ∧ bitmapRead t (idx + j) = true) ∧
      ∀ i, i < idx ∨ idx + cnt ≤ i → bitmapRead t i = bitmapRead b i) ∧
    (r = none → t = b)

section Search

variable {b t : Bitmap} {i j n cnt : Nat}

/-- Bits outside the run that is set stay as they are. -/
theorem bitmapSetRun_other (b : Bitmap) (k cnt : Nat) (v : Bool) {i : Nat} (hi : i < k ∨ k + cnt ≤ i) :
    bitmapRead (bitmapSetRun b k v cnt) i = bitmapRead b i := by
  induction cnt with
  | zero => rfl
  | succ cnt ih =>
      rw [bitmapSetRun, bitmapRead_bitmapSet_of_ne _ v (by omega)]
      exact ih (by omega)

/-- The inner loop ends inside the bitmap, when the run does or a set bit is ahead. -/
theorem bitmapRunFrom_returns
    (h : i + j + n ≤ b.size ∨ ∃ k, i + j ≤ k ∧ k < b.size ∧ bitmapRead b k = true) :
    ∃ j', bitmapRunFrom b i n j t = .ok (j', t) := by
  induction n generalizing j with
  | zero => exact ⟨j, rfl⟩
  | succ n ih =>
      have hin : i + j < b.size := by
        obtain hle | ⟨k, hk, hlt, -⟩ := h <;> omega
      rw [bitmapRunFrom, Prog.run_require_bind hin]
      split
      · exact ⟨j, rfl⟩
      · next hclear =>
          refine ih (h.imp (by omega) fun ⟨k, hk, hlt, hset⟩ => ⟨k, ?_, hlt, hset⟩)
          -- the set bit is not the one just seen
          have hne : k ≠ i + j := by
            rintro rfl
            exact hclear hset
          omega

/-- The search returns when there is a run ahead, or the last bit is set. -/
theorem bitmapAllocFrom_returns (hcnt : 0 < cnt)
    (h : (∃ k, i ≤ k ∧ b.RunAt cnt k) ∨ bitmapRead b (b.size - 1) = true) :
    ∃ r t, bitmapAllocFrom b cnt n i b = .ok (r, t) := by
  induction n generalizing i with
  | zero => exact ⟨none, b, rfl⟩
  | succ n ih =>
      rw [bitmapAllocFrom]
      split
      · next hlt =>
          split
          · next hbit =>
              obtain ⟨j, hrun⟩ := bitmapRunFrom_returns (b := b) (i := i) (j := 0) (n := cnt) (t := b) (by
                obtain ⟨k, hk, hin, -⟩ | hlast := h
                · exact .inl (by omega)
                · exact .inr ⟨b.size - 1, by omega, by omega, hlast⟩)
              obtain ⟨-, hend⟩ := bitmapRunFrom_clear hrun fun k hk => absurd hk (Nat.not_lt_zero k)
              rw [Prog.bind_of_ok hrun]
              split
              · exact ⟨_, _, rfl⟩
              · next hj =>
                  obtain ⟨hjlt, -, hset⟩ := hend.resolve_left (by omega)
                  obtain ⟨k, hk, hin, hclear⟩ | hlast := h
                  · -- the set bit lies before the run
                    refine ih (.inl ⟨k, ?_, hin, hclear⟩)
                    by_contra hpast
                    have hk' := hclear (i + j - k) (by omega)
                    rw [show k + (i + j - k) = i + j by omega, hset] at hk'
                    cases hk'
                  · exact ih (.inr hlast)
          · next hbit =>
              obtain ⟨k, hk, hin, hclear⟩ | hlast := h
              · refine ih (.inl ⟨k, ?_, hin, hclear⟩)
                by_contra hpast
                have hik : i = k := by omega
                subst hik
                exact hbit (hclear 0 hcnt)
              · exact ih (.inr hlast)
      · exact ⟨none, b, rfl⟩

/-- A search that comes to a clear last bit without finding a run looks past it. -/
theorem not_returns_none (hlast : bitmapRead b (b.size - 1) = false) (hi : i < b.size)
    (hfuel : b.size ≤ i + n) : bitmapAllocFrom b cnt n i b ≠ .ok (none, t) := by
  intro h
  induction n generalizing i with
  | zero => omega
  | succ n ih =>
      rw [bitmapAllocFrom, if_pos hi] at h
      split at h
      · obtain ⟨j, t', hrun, h⟩ := Prog.bind_eq_ok.1 h
        obtain ⟨ht, -, -⟩ := bitmapRunFrom_le hrun
        obtain ⟨-, hend⟩ := bitmapRunFrom_clear hrun fun k hk => absurd hk (Nat.not_lt_zero k)
        rw [ht] at h
        split at h
        · cases h
        · next hj =>
            obtain ⟨hlt, hin, hset⟩ := hend.resolve_left (by omega)
            -- the set bit is not the last one
            have hne : i + j ≠ b.size - 1 := by
              intro heq
              rw [heq, hlast] at hset
              cases hset
            exact ih (by omega) (by omega) h
      · next hset =>
          have hne : i ≠ b.size - 1 := by
            rintro rfl
            exact hset hlast
          exact ih (by omega) (by omega) h

/-- The first search for a run finds the first one. -/
theorem bitmapAlloc_least (hcnt : 0 < cnt) (hrun : b.FreeRun cnt) :
    ∃ k t, bitmapAlloc cnt b = .ok (some k, t) ∧ IsLeast {k | b.RunAt cnt k} k := by
  obtain ⟨k, hin, hclear⟩ := hrun
  obtain ⟨r, t, h⟩ := bitmapAllocFrom_returns (n := b.size) (i := 0) hcnt
    (.inl ⟨k, Nat.zero_le k, hin, hclear⟩)
  have hcall : bitmapAlloc cnt b = .ok (r, t) := h
  obtain ⟨-, -, hnone⟩ | ⟨k', rfl, -, hin', hclear'⟩ := bitmapAlloc_cases hcall hcnt
  · exact absurd ⟨k, hin, hclear⟩ hnone
  · refine ⟨k', t, hcall, ⟨hin', hclear'⟩, fun k ⟨hin, hclear⟩ => ?_⟩
    by_contra hlt
    obtain ⟨j, hj, hset⟩ := passes_no_run h hcnt (by omega) (Nat.zero_le k) hin fun k'' hk'' => by
      cases hk''
      omega
    rw [hclear j hj] at hset
    cases hset

/-- The two searches for one bit. -/
theorem bitmapAllocFrom_one (b : Bitmap) (n i : Nat) (hn : i + n = b.size) :
    bitmapAllocFrom b 1 n i b =
      .ok ((bitmapAllocABitFrom b n i).map Prod.fst, ((bitmapAllocABitFrom b n i).map Prod.snd).getD b) := by
  induction n generalizing i with
  | zero => rfl
  | succ n ih =>
      rw [bitmapAllocFrom, bitmapAllocABitFrom, if_pos (by omega)]
      split
      · next hclear =>
          have hrun : bitmapRunFrom b i 1 0 b = .ok (1, b) := by
            rw [bitmapRunFrom, Prog.run_require_bind (by omega), if_neg (by rw [Nat.add_zero, hclear]; decide)]
            rfl
          rw [Prog.bind_of_ok hrun, if_pos rfl]
          rfl
      · exact ih (i + 1) (by omega)

end Search

/-! ## The calls -/

/-- `bitmap_alloc` stays inside the bitmap when it finds a run, when there are no bits, and when the last bit is
    set; otherwise it looks past the end. -/
theorem stays_inside_iff {b : Bitmap} {cnt : Nat} (hcnt : 1 ≤ cnt) :
    b.StaysInside cnt ↔ b.FreeRun cnt ∨ b.size = 0 ∨ bitmapRead b (b.size - 1) = true := by
  constructor
  · rintro ⟨r, t, hcall, -, -⟩
    obtain ⟨rfl, -, -⟩ | ⟨k, -, -, hin, hclear⟩ := bitmapAlloc_cases hcall hcnt
    · right
      by_contra hcond
      rw [not_or, Bool.not_eq_true] at hcond
      exact not_returns_none hcond.2 (Nat.pos_of_ne_zero hcond.1) (by omega) hcall
    · exact .inl ⟨k, hin, hclear⟩
  · intro hcond
    have hreturns : ∃ r t, bitmapAlloc cnt b = .ok (r, t) := by
      obtain ⟨k, hin, hclear⟩ | hzero | hlast := hcond
      · exact bitmapAllocFrom_returns hcnt (.inl ⟨k, Nat.zero_le k, hin, hclear⟩)
      · refine ⟨none, b, ?_⟩
        show bitmapAllocFrom b cnt b.size 0 b = _
        rw [hzero]
        rfl
      · exact bitmapAllocFrom_returns hcnt (.inr hlast)
    obtain ⟨r, t, hcall⟩ := hreturns
    refine ⟨r, t, hcall, ?_⟩
    obtain ⟨rfl, rfl, -⟩ | ⟨k, rfl, rfl, hin, hclear⟩ := bitmapAlloc_cases hcall hcnt
    · exact ⟨nofun, fun _ => rfl⟩
    · refine ⟨fun idx hidx => ?_, nofun⟩
      cases hidx
      exact ⟨hin, fun j hj => ⟨hclear j hj, bitmapSetRun_read b k cnt hj⟩,
        fun i hi => bitmapSetRun_other b k cnt true hi⟩

/-- A run of nine bits in a bitmap of two bytes. -/
theorem stays_inside_zero : (⟨2, Buf.zero⟩ : Bitmap).StaysInside 9 ↔
    (⟨2, Buf.zero⟩ : Bitmap).FreeRun 9 ∨ (⟨2, Buf.zero⟩ : Bitmap).size = 0 ∨
      bitmapRead ⟨2, Buf.zero⟩ ((⟨2, Buf.zero⟩ : Bitmap).size - 1) = true :=
  stays_inside_iff (by decide)

/-- A run of nine bits in a bitmap of one byte. -/
theorem not_stays_inside_zero : ¬ (⟨1, Buf.zero⟩ : Bitmap).StaysInside 9 := by
  rintro ⟨r, t, h, -⟩
  have herr : bitmapAlloc 9 (⟨1, Buf.zero⟩ : Bitmap) = .error .undefined := rfl
  rw [herr] at h
  cases h

/-- `bitmap_alloc` returns the least start of a run, and for one bit it does what `bitmap_alloc_a_bit` does. -/
theorem first_fit {b : Bitmap} {cnt : Nat} (hcnt : 1 ≤ cnt) :
    (b.FreeRun cnt → ∃ k t, bitmapAlloc cnt b = .ok (some k, t) ∧ IsLeast {k | b.RunAt cnt k} k) ∧
      bitmapAlloc 1 b = .ok ((bitmapAllocABit b).map Prod.fst, ((bitmapAllocABit b).map Prod.snd).getD b) :=
  ⟨bitmapAlloc_least hcnt, bitmapAllocFrom_one b b.size 0 (Nat.zero_add _)⟩

theorem first_fit_zero :
    ((⟨1, Buf.zero⟩ : Bitmap).FreeRun 8 → ∃ k t, bitmapAlloc 8 (⟨1, Buf.zero⟩ : Bitmap) = .ok (some k, t) ∧
      IsLeast {k | (⟨1, Buf.zero⟩ : Bitmap).RunAt 8 k} k) ∧
      bitmapAlloc 1 (⟨1, Buf.zero⟩ : Bitmap) = .ok ((bitmapAllocABit ⟨1, Buf.zero⟩).map Prod.fst,
        ((bitmapAllocABit ⟨1, Buf.zero⟩).map Prod.snd).getD ⟨1, Buf.zero⟩) :=
  first_fit (by decide)

end RecoverOS
