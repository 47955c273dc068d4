import RecoverOS.Fs.Invariant
import Mathlib.Algebra.Order.Interval.Finset.SuccPred
import Mathlib.Data.Nat.SuccPred

set_option autoImplicit false

/-! # The loop of `inode_write`

`Grown` says what the loop may do to the state whatever its arguments are: blocks are added to the
array, each taken from the free ones, and only sectors of the array and of the block bitmap are
written. The second half is about the bytes. -/

namespace RecoverOS

/-! ## One turn -/

namespace WriteArgs

/-- The number of bytes of the caller's buffer that the turn at `idx` consumes. -/
def advance (w : WriteArgs) (idx : Nat) : Nat :=
  if idx = w.block_idx_start then
    if idx + 1 = w.block_idx_end then w.count else BLOCK_SIZE - w.block_off
  else BLOCK_SIZE

/-- What the turn at `idx` writes over a sector that holds `old`. -/
def image (w : WriteArgs) (idx : Nat) (old buf : Buf) : Buf :=
  if idx = w.block_idx_start then
    (Buf.zero.patch 0 512 old).patch w.block_off (w.advance idx) buf
  else if idx + 1 = w.block_idx_end then (Buf.zero.patch 0 512 old).patch 0 w.block_end_off buf
  else buf

variable {w : WriteArgs} {idx : Nat} {old buf : Buf}

theorem advance_first (h : idx = w.block_idx_start) (h' : idx + 1 = w.block_idx_end) :
    w.advance idx = w.count := (if_pos h).trans (if_pos h')

theorem advance_start (h : idx = w.block_idx_start) (h' : idx + 1 ≠ w.block_idx_end) :
    w.advance idx = 512 - w.block_off := (if_pos h).trans (if_neg h')

theorem advance_later (h : idx ≠ w.block_idx_start) : w.advance idx = 512 := if_neg h

theorem image_start (h : idx = w.block_idx_start) :
    w.image idx old buf = (Buf.zero.patch 0 512 old).patch w.block_off (w.advance idx) buf := if_pos h

theorem image_last (h : idx ≠ w.block_idx_start) (h' : idx + 1 = w.block_idx_end) :
    w.image idx old buf = (Buf.zero.patch 0 512 old).patch 0 w.block_end_off buf :=
  (if_neg h).trans (if_pos h')

theorem image_middle (h : idx ≠ w.block_idx_start) (h' : idx + 1 ≠ w.block_idx_end) :
    w.image idx old buf = buf := (if_neg h).trans (if_neg h')

end WriteArgs

namespace FS

/-- The state once sector `lba` is overwritten. -/
def writeSector (s : FS) (lba : Nat) (buf : Buf) : FS :=
  { s with disk := s.disk.patch (512 * lba) 512 buf }

end FS

section Turn

variable {w : WriteArgs} {n idx : Nat} {all all1 : Nat → Nat} {buf : Buf} {s s1 : FS}

theorem writeLoop_stop : writeLoop w (n + 1) w.block_idx_end all buf s = .ok (some all, s) := by
  unfold writeLoop
  rw [if_pos rfl]
  rfl

theorem writeLoop_past (hne : idx ≠ w.block_idx_end) (hidx : 140 ≤ idx) :
    writeLoop w (n + 1) idx all buf s = .error .undefined := by
  rw [writeLoop, if_neg hne]
  exact Prog.run_require_bind_not (c := idx < MAX_FILE_BLOCKS_CNT) (Nat.not_lt.2 hidx) _ s

theorem writeLoop_full (hne : idx ≠ w.block_idx_end) (hidx : idx < 140)
    (he : ensureBlock all idx s = .ok (none, s1)) :
    writeLoop w (n + 1) idx all buf s = .ok (none, s1) := by
  rw [writeLoop, if_neg hne, Prog.run_require_bind (c := idx < MAX_FILE_BLOCKS_CNT) hidx,
    Prog.bind_of_ok he]
  rfl

/-- The first copy of a call goes past the temporary buffer. -/
theorem writeLoop_overrun (hne : idx ≠ w.block_idx_end) (hidx : idx < 140)
    (he : ensureBlock all idx s = .ok (some all1, s1)) (hstart : idx = w.block_idx_start)
    (hreq : ¬ w.block_off + w.advance idx ≤ 1024) :
    writeLoop w (n + 1) idx all buf s = .error .undefined := by
  rw [writeLoop, if_neg hne, Prog.run_require_bind (c := idx < MAX_FILE_BLOCKS_CNT) hidx,
    Prog.bind_of_ok he]
  dsimp only
  rw [if_pos hstart, Prog.bind_of_ok (run_ideRead _ _ _ Nat.one_pos s1)]
  unfold WriteArgs.advance at hreq
  rw [if_pos hstart] at hreq
  exact Prog.run_require_bind_not hreq _ s1

variable (n buf) in
/-- The turn at `idx` writes one sector; the last turn ends the loop. -/
theorem writeLoop_turn (hne : idx ≠ w.block_idx_end) (hidx : idx < 140)
    (he : ensureBlock all idx s = .ok (some all1, s1))
    (hreq : idx = w.block_idx_start → w.block_off + w.advance idx ≤ 1024) :
    writeLoop w (n + 1) idx all buf s =
      if idx + 1 = w.block_idx_end then
        .ok (some all1, s1.writeSector (all1 idx)
          (w.image idx (s1.disk.from (512 * all1 idx)) buf))
      else writeLoop w n (idx + 1) all1 (buf.from (w.advance idx))
        (s1.writeSector (all1 idx) (w.image idx (s1.disk.from (512 * all1 idx)) buf)) := by
  rw [writeLoop, if_neg hne, Prog.run_require_bind (c := idx < MAX_FILE_BLOCKS_CNT) hidx,
    Prog.bind_of_ok he]
  dsimp only
  by_cases hstart : idx = w.block_idx_start
  · have hreq' : w.block_off + w.advance idx ≤ BLOCK_SIZE * 2 := hreq hstart
    unfold WriteArgs.image WriteArgs.advance
    unfold WriteArgs.advance at hreq'
    rw [if_pos hstart] at hreq'
    rw [if_pos hstart, if_pos hstart, if_pos hstart,
      Prog.bind_of_ok (run_ideRead _ _ _ Nat.one_pos s1), Prog.run_require_bind hreq',
      Prog.bind_of_ok (run_ideWrite _ _ Nat.one_pos s1)]
    by_cases hlast : idx + 1 = w.block_idx_end
    · simp only [if_pos hlast]
      rfl
    · simp only [if_neg hlast]
      rfl
  · unfold WriteArgs.image WriteArgs.advance
    rw [if_neg hstart, if_neg hstart, if_neg hstart]
    by_cases hlast : idx + 1 = w.block_idx_end
    · rw [if_pos hlast, if_pos hlast, if_pos hlast,
        Prog.bind_of_ok (run_ideRead _ _ _ Nat.one_pos s1),
        Prog.bind_of_ok (run_ideWrite _ _ Nat.one_pos s1)]
      rfl
    · rw [if_neg hlast, if_neg hlast, if_neg hlast,
        Prog.bind_of_ok (run_ideWrite _ _ Nat.one_pos s1)]
      rfl

/-- What the first turn of a loop that returns did. -/
theorem writeLoop_succ_eq_ok {r : Option (Nat → Nat)} {s' : FS}
    (h : writeLoop w (n + 1) idx all buf s = .ok (r, s')) :
    (idx = w.block_idx_end ∧ r = some all ∧ s' = s) ∨
    idx < 140 ∧ ((ensureBlock all idx s = .ok (none, s') ∧ r = none) ∨
      ∃ all1 s1, ensureBlock all idx s = .ok (some all1, s1) ∧
        if idx + 1 = w.block_idx_end then
          r = some all1 ∧
            s' = s1.writeSector (all1 idx) (w.image idx (s1.disk.from (512 * all1 idx)) buf)
        else writeLoop w n (idx + 1) all1 (buf.from (w.advance idx))
          (s1.writeSector (all1 idx) (w.image idx (s1.disk.from (512 * all1 idx)) buf)) = .ok (r, s')) := by
  by_cases hstop : idx = w.block_idx_end
  · subst hstop
    rw [writeLoop_stop] at h
    cases h
    exact .inl ⟨rfl, rfl, rfl⟩
  have hidx : idx < 140 := by
    by_contra hpast
    rw [writeLoop_past hstop (Nat.le_of_not_lt hpast)] at h
    cases h
  refine .inr ⟨hidx, ?_⟩
  cases he : ensureBlock all idx s with
  | error e =>
      rw [writeLoop, if_neg hstop, Prog.run_require_bind (c := idx < MAX_FILE_BLOCKS_CNT) hidx,
        Prog.bind_of_error he] at h
      cases h
  | ok res =>
      obtain ⟨o, s1⟩ := res
      cases o with
      | none =>
          rw [writeLoop_full hstop hidx he] at h
          cases h
          exact .inl ⟨rfl, rfl⟩
      | some all1 =>
          refine .inr ⟨all1, s1, rfl, ?_⟩
          by_cases hreq : idx = w.block_idx_start → w.block_off + w.advance idx ≤ 1024
          · rw [writeLoop_turn _ _ hstop hidx he hreq] at h
            by_cases hlast : idx + 1 = w.block_idx_end
            · rw [if_pos hlast] at h ⊢
              cases h
              exact ⟨rfl, rfl⟩
            · rwa [if_neg hlast] at h ⊢
          · obtain ⟨hstart, hreq⟩ := not_forall.1 hreq
            rw [writeLoop_overrun hstop hidx he hstart hreq] at h
            cases h

end Turn

/-! ## What grows -/

/-- From `s` to `s'`, the entries `lo ≤ k < hi` of the array that were 0 may have become free blocks of
    `s`, each a different one, which are used in `s'`; nothing else became used, and above the block
    bitmap nothing but sectors of these entries was written. -/
structure Grown (lo hi : Nat) (s : FS) (all : Nat → Nat) (s' : FS) (all' : Nat → Nat) : Prop where
  frame : s' = { s with disk := s'.disk, block_bitmap := s'.block_bitmap }
  len : s'.block_bitmap.bytes_len = s.block_bitmap.bytes_len
  kept : ∀ k, all k ≠ 0 → all' k = all k
  range : ∀ k, all' k ≠ all k → lo ≤ k ∧ k < hi ∧ k < 140
  fresh : ∀ k, all k = 0 → all' k ≠ 0 → ¬ s.used (all' k)
  inj : ∀ k k', all k = 0 → all k' = 0 → all' k ≠ 0 → all' k = all' k' → k = k'
  used : ∀ b, s'.used b ↔ s.used b ∨ ∃ k, all k = 0 ∧ all' k ≠ 0 ∧ all' k = b
  disk : ∀ a, 512 * s.sb.inode_bitmap_lba ≤ a →
    (∀ k, lo ≤ k → k < hi → all' k ≠ 0 → a < 512 * all' k ∨ 512 * all' k + 512 ≤ a) →
    s'.disk a = s.disk a

namespace Grown

variable {lo hi lo' hi' idx : Nat} {s s1 s2 : FS} {all all1 all2 : Nat → Nat}

theorem refl (lo hi : Nat) (s : FS) (all : Nat → Nat) : Grown lo hi s all s all where
  frame := rfl
  len := rfl
  kept _ _ := rfl
  range _ h := absurd rfl h
  fresh _ h h' := absurd h h'
  inj _ _ h _ h' _ := absurd h h'
  used b := by
    constructor
    · exact Or.inl
    · rintro (h | ⟨k, h, h', -⟩)
      · exact h
      · exact absurd h h'
  disk _ _ _ := rfl

theorem sb_eq (h : Grown lo hi s all s1 all1) : s1.sb = s.sb := by rw [h.frame]

theorem inodes_eq (h : Grown lo hi s all s1 all1) : s1.inodes = s.inodes := by rw [h.frame]

theorem geometry (h : Grown lo hi s all s1 all1) (g : Geometry s) : Geometry s1 :=
  g.congr h.sb_eq h.len (by rw [h.frame])

theorem used_new (h : Grown lo hi s all s1 all1) {k : Nat} (h0 : all k = 0) (h1 : all1 k ≠ 0) :
    s1.used (all1 k) :=
  (h.used _).2 (Or.inr ⟨k, h0, h1, rfl⟩)

theorem used_mono (h : Grown lo hi s all s1 all1) {b : Nat} (hb : s.used b) : s1.used b :=
  (h.used b).2 (Or.inl hb)

theorem mono (h : Grown lo hi s all s1 all1) (hlo : lo' ≤ lo) (hhi : hi ≤ hi') :
    Grown lo' hi' s all s1 all1 where
  frame := h.frame
  len := h.len
  kept := h.kept
  range k hk := by
    obtain ⟨h1, h2, h3⟩ := h.range k hk
    exact ⟨by omega, by omega, h3⟩
  fresh := h.fresh
  inj := h.inj
  used := h.used
  disk a ha hout := h.disk a ha fun k h1 h2 => hout k (by omega) (by omega)

theorem trans (h1 : Grown lo hi s all s1 all1) (h2 : Grown lo hi s1 all1 s2 all2) :
    Grown lo hi s all s2 all2 where
  frame := by rw [h2.frame, h1.frame]
  len := h2.len.trans h1.len
  kept k hk := by
    have hk1 : all1 k ≠ 0 := by rwa [h1.kept k hk]
    rw [h2.kept k hk1, h1.kept k hk]
  range k hk := by
    by_cases hk1 : all1 k = all k
    · exact h2.range k (by rwa [hk1])
    · exact h1.range k hk1
  fresh k h0 hne := by
    by_cases hk1 : all1 k = 0
    · exact fun hu => h2.fresh k hk1 hne (h1.used_mono hu)
    · rw [h2.kept k hk1]
      exact h1.fresh k h0 hk1
  inj k k' h0 h0' hne heq := by
    by_cases hk : all1 k = 0
    · by_cases hk' : all1 k' = 0
      · exact h2.inj k k' hk hk' hne heq
      · rw [h2.kept k' hk'] at heq
        exact absurd (heq ▸ h1.used_new h0' hk') (h2.fresh k hk hne)
    · by_cases hk' : all1 k' = 0
      · have hne' : all2 k' ≠ 0 := by rwa [← heq]
        rw [h2.kept k hk] at heq
        exact absurd (heq ▸ h1.used_new h0 hk) (h2.fresh k' hk' hne')
      · rw [h2.kept k hk, h2.kept k' hk'] at heq
        exact h1.inj k k' h0 h0' hk heq
  used b := by
    rw [h2.used b, h1.used b]
    constructor
    · rintro ((hb | ⟨k, h0, hne, hk⟩) | ⟨k, h0, hne, hk⟩)
      · exact Or.inl hb
      · exact Or.inr ⟨k, h0, by rwa [h2.kept k hne], by rwa [h2.kept k hne]⟩
      · refine Or.inr ⟨k, ?_, hne, hk⟩
        by_contra hk0
        rw [h1.kept k hk0] at h0
        exact hk0 h0
    · rintro (hb | ⟨k, h0, hne, hk⟩)
      · exact Or.inl (Or.inl hb)
      · by_cases hk1 : all1 k = 0
        · exact Or.inr ⟨k, hk1, hne, hk⟩
        · rw [h2.kept k hk1] at hk
          exact Or.inl (Or.inr ⟨k, h0, hk1, hk⟩)
  disk a ha hout := by
    rw [h2.disk a (by rwa [h1.sb_eq]) hout]
    refine h1.disk a ha fun k hk1 hk2 hne => ?_
    have hout' := hout k hk1 hk2
    rw [h2.kept k hne] at hout'
    exact hout' hne

/-- One block entered. -/
theorem take (g : Geometry s) {k : Nat} {btmp : Bitmap}
    (halloc : bitmapAllocABit s.block_bitmap = some (k, btmp)) (h0 : all idx = 0)
    (hlo : lo ≤ idx) (hhi : idx < hi) (hidx : idx < 140) :
    Grown lo hi s all (s.takeBlock k) (Function.update all idx (s.sb.data_start_lba + k)) := by
  obtain ⟨hk, hclear, -, -⟩ := bitmapAllocABit_eq_some halloc
  have hzero : s.sb.data_start_lba + k ≠ 0 := by
    rw [g.data_lba]
    omega
  have hother : ∀ j, all j = 0 → Function.update all idx (s.sb.data_start_lba + k) j ≠ 0 →
      j = idx := by
    intro j hj hne
    by_contra hji
    rw [Function.update_of_ne hji] at hne
    exact hne hj
  constructor
  case frame => rfl
  case len => rfl
  case kept =>
    intro j hj
    rw [Function.update_of_ne]
    rintro rfl
    exact hj h0
  case range =>
    intro j hj
    have hji : j = idx := by
      by_contra hne
      exact hj (Function.update_of_ne hne _ _)
    subst hji
    exact ⟨hlo, hhi, hidx⟩
  case fresh =>
    intro j hj hne
    rw [hother j hj hne, Function.update_self]
    exact FS.not_used_of_clear hclear
  case inj =>
    intro j j' hj hj' hne heq
    rw [hother j hj hne, hother j' hj' (by rwa [← heq])]
  case used =>
    intro b
    rw [FS.used_takeBlock hk]
    constructor
    · rintro (hb | rfl)
      · exact Or.inl hb
      · exact Or.inr ⟨idx, h0, by rwa [Function.update_self], by rw [Function.update_self]⟩
    · rintro (hb | ⟨j, hj, hne, rfl⟩)
      · exact Or.inl hb
      · rw [hother j hj hne, Function.update_self]
        exact Or.inr rfl
  case disk =>
    intro a ha _
    exact FS.takeBlock_disk g hk ha

/-- One sector of the array written. -/
theorem write (buf : Buf) (hne : all idx ≠ 0) (hlo : lo ≤ idx) (hhi : idx < hi) :
    Grown lo hi s all (s.writeSector (all idx) buf) all where
  frame := rfl
  len := rfl
  kept _ _ := rfl
  range _ h := absurd rfl h
  fresh _ h h' := absurd h h'
  inj _ _ h _ h' _ := absurd h h'
  used := (Grown.refl lo hi s all).used
  disk a _ hout := Buf.patch_outside _ _ (by
    have h := hout idx hlo hhi hne
    omega)

end Grown

/-- Looking up one block of the array. -/
theorem ensureBlock_grown {s s1 : FS} {all : Nat → Nat} {idx : Nat} {r : Option (Nat → Nat)}
    (g : Geometry s) (hidx : idx < 140) (h : ensureBlock all idx s = .ok (r, s1)) :
    (r = none ∧ s1 = s) ∨
      ∃ all1, r = some all1 ∧ Grown idx (idx + 1) s all s1 all1 ∧ all1 idx ≠ 0 := by
  rcases ensureBlock_cases g all idx with ⟨hne, hrun⟩ | ⟨-, -, hrun⟩ | ⟨k, btmp, h0, ha, hrun⟩
  · rw [hrun] at h
    cases h
    exact Or.inr ⟨all, rfl, Grown.refl _ _ _ _, hne⟩
  · rw [hrun] at h
    cases h
    exact Or.inl ⟨rfl, rfl⟩
  · rw [hrun] at h
    cases h
    refine Or.inr ⟨_, rfl, Grown.take g ha h0 (Nat.le_refl _) (Nat.lt_succ_self _) hidx, ?_⟩
    rw [Function.update_self, g.data_lba]
    omega

/-- Every run of the loop grows the array; one that succeeds ends at `block_idx_end`. -/
theorem writeLoop_grown {w : WriteArgs} {n idx : Nat} {all : Nat → Nat} {buf : Buf} {s s' : FS}
    {r : Option (Nat → Nat)} (g : Geometry s) (h : writeLoop w n idx all buf s = .ok (r, s')) :
    ∃ hi all', Grown idx hi s all s' all' ∧ idx ≤ hi ∧
      ∀ x, r = some x → x = all' ∧ hi = w.block_idx_end := by
  induction n generalizing idx all buf s with
  | zero => exact absurd h (by simp [writeLoop])
  | succ n ih =>
      obtain ⟨rfl, rfl, rfl⟩ | ⟨hidx, ⟨he, rfl⟩ | ⟨all1, s1, he, hturn⟩⟩ := writeLoop_succ_eq_ok h
      · refine ⟨_, all, Grown.refl _ _ _ _, Nat.le_refl _, fun x hx => ⟨?_, rfl⟩⟩
        exact (Option.some.inj hx).symm
      · obtain ⟨-, rfl⟩ | ⟨all1, hnone, -⟩ := ensureBlock_grown g hidx he
        · exact ⟨idx, all, Grown.refl _ _ _ _, Nat.le_refl _, fun x hx => by cases hx⟩
        · cases hnone
      · obtain ⟨hnone, -⟩ | ⟨all1', hsome, hg1, hne⟩ := ensureBlock_grown g hidx he
        · cases hnone
        cases hsome
        have hg2 := hg1.trans (Grown.write (w.image idx (s1.disk.from (512 * all1 idx)) buf)
          hne (Nat.le_refl _) (Nat.lt_succ_self _))
        split at hturn
        · next hlast =>
            obtain ⟨rfl, rfl⟩ := hturn
            refine ⟨idx + 1, all1, hg2, Nat.le_succ _, fun x hx => ⟨?_, hlast⟩⟩
            exact (Option.some.inj hx).symm
        · obtain ⟨hi, all', hg3, hle, hres⟩ := ih (hg2.geometry g) hturn
          refine ⟨hi, all', ?_, by omega, hres⟩
          exact (hg2.mono (Nat.le_refl _) hle).trans (hg3.mono (Nat.le_succ _) (Nat.le_refl _))

/-! ## Arrays of blocks that are in use -/

/-- Every entry of the array is a block in use, and no two are the same. -/
structure Owned (s : FS) (all : Nat → Nat) : Prop where
  used : ∀ k, all k ≠ 0 → s.used (all k)
  inj : ∀ k k', all k ≠ 0 → all k = all k' → k = k'

theorem Owned.grow {lo hi : Nat} {s s1 : FS} {all all1 : Nat → Nat} (ho : Owned s all)
    (hg : Grown lo hi s all s1 all1) : Owned s1 all1 where
  used k hk := by
    by_cases h0 : all k = 0
    · exact hg.used_new h0 hk
    · rw [hg.kept k h0]
      exact hg.used_mono (ho.used k h0)
  inj k k' hk heq := by
    have hk' : all1 k' ≠ 0 := by rwa [← heq]
    by_cases h0 : all k = 0
    · by_cases h0' : all k' = 0
      · exact hg.inj k k' h0 h0' hk heq
      · rw [hg.kept k' h0'] at heq
        exact absurd (heq ▸ ho.used k' h0') (hg.fresh k h0 hk)
    · by_cases h0' : all k' = 0
      · rw [hg.kept k h0] at heq
        exact absurd (heq ▸ ho.used k h0) (hg.fresh k' h0' hk')
      · rw [hg.kept k h0, hg.kept k' h0'] at heq
        exact ho.inj k k' h0 heq

theorem Inv.owned {s : FS} (hinv : Inv s) {no : Nat} {i : Inode} (hc : s.Copy no i) :
    Owned s (i.blocks s.disk) where
  used _ hk := hinv.used_blocks hc hk
  inj _ _ hk heq := (hinv.blocks_inj hc hc hk heq).2

/-! ## How many blocks a write needs -/

/-- The number of entries from `lo` up to `hi` that have no block. -/
def missing (all : Nat → Nat) (lo hi : Nat) : Nat :=
  ((Finset.Ico lo hi).filter fun k => all k = 0).card

theorem missing_self (all : Nat → Nat) (lo : Nat) : missing all lo lo = 0 := by
  simp [missing]

theorem missing_step (all : Nat → Nat) {lo hi : Nat} (h : lo < hi) :
    missing all lo hi = (if all lo = 0 then 1 else 0) + missing all (lo + 1) hi := by
  unfold missing
  rw [← Finset.insert_Ico_add_one_left_eq_Ico h, Finset.filter_insert]
  by_cases h0 : all lo = 0
  · rw [if_pos h0, if_pos h0, Finset.card_insert_of_notMem (by simp), Nat.add_comm]
  · rw [if_neg h0, if_neg h0, Nat.zero_add]

theorem missing_congr {all all1 : Nat → Nat} {lo hi : Nat}
    (h : ∀ k, lo ≤ k → k < hi → (all k = 0 ↔ all1 k = 0)) : missing all lo hi = missing all1 lo hi := by
  unfold missing
  congr 1
  refine Finset.filter_congr fun k hk => ?_
  rw [Finset.mem_Ico] at hk
  exact h k hk.1 hk.2

/-- The number of the block that the allocator hands out after `n` others. -/
def nthFree : Bitmap → Nat → Option Nat
  | b, 0 => (bitmapAllocABit b).map Prod.fst
  | b, n + 1 => (bitmapAllocABit b).bind fun r => nthFree r.2 n

/-! ## The bytes -/

/-- The arguments of the loop for `count` bytes at `pos`. -/
def writeArgs (pos count : Nat) : WriteArgs where
  block_idx_start := pos / 512
  block_idx_end := (pos + count + 511) / 512
  block_off := pos % 512
  block_end_off := (pos + count) % 512
  count := count

/-- The file offset up to which the loop stores the buffer. A write that goes over a block boundary and
    ends on one has `block_end_off = 0`, and nothing of its last block is stored. -/
def storedEnd (pos count : Nat) : Nat :=
  if (pos + count) % 512 = 0 ∧ pos / 512 + 1 < (pos + count + 511) / 512 then pos + count - 512
  else pos + count

/-- The bytes of the buffer from `pos` on are in the blocks from `lo` to `hi`; the rest of every block
    is as before. -/
def Stamped (pos count : Nat) (buf : Buf) (lo hi : Nat) (blocks : Nat → Nat) (s s' : FS) : Prop :=
  ∀ k j, j < 512 → blocks k ≠ 0 →
    s'.disk (512 * blocks k + j) =
      if lo ≤ k ∧ k < hi ∧ pos ≤ 512 * k + j ∧ 512 * k + j < storedEnd pos count then
        buf (512 * k + j - pos)
      else s.disk (512 * blocks k + j)

section Bytes

variable {pos count idx : Nat} {buf old : Buf}

/-- What one turn writes, byte by byte. -/
theorem image_writeArgs (hlo : pos / 512 ≤ idx) (hhi : idx < (pos + count + 511) / 512) {j : Nat}
    (hj : j < 512) :
    (writeArgs pos count).image idx old (buf.from (512 * idx - pos)) j =
      if pos ≤ 512 * idx + j ∧ 512 * idx + j < storedEnd pos count then buf (512 * idx + j - pos)
      else old j := by
  by_cases hstart : idx = pos / 512
  · have hptr : 512 * idx - pos = 0 := by omega
    rw [WriteArgs.image_start hstart, hptr, Buf.from_zero]
    by_cases hlast : idx + 1 = (pos + count + 511) / 512
    · have hend : storedEnd pos count = pos + count := if_neg (by omega)
      rw [WriteArgs.advance_first hstart hlast, hend]
      change (Buf.patch _ (pos % 512) count buf) j = _
      by_cases hin : pos % 512 ≤ j ∧ j < pos % 512 + count
      · rw [Buf.patch_inside _ _ hin.1 hin.2, if_pos (by omega)]
        congr 1
        omega
      · have hout : j < pos % 512 ∨ pos % 512 + count ≤ j := by omega
        rw [Buf.patch_outside _ _ hout, if_neg (by omega), Buf.patch_start _ _ _ hj]
    · have hend : 512 * idx + 512 ≤ storedEnd pos count := by
        unfold storedEnd
        split <;> omega
      rw [WriteArgs.advance_start hstart hlast]
      change (Buf.patch _ (pos % 512) (512 - pos % 512) buf) j = _
      by_cases hin : pos % 512 ≤ j
      · have hin' : j < pos % 512 + (512 - pos % 512) := by omega
        rw [Buf.patch_inside _ _ hin hin', if_pos (by omega)]
        congr 1
        omega
      · have hout : j < pos % 512 ∨ pos % 512 + (512 - pos % 512) ≤ j := by omega
        rw [Buf.patch_outside _ _ hout, if_neg (by omega), Buf.patch_start _ _ _ hj]
  · have hptr : 512 * idx - pos + j = 512 * idx + j - pos := by omega
    by_cases hlast : idx + 1 = (pos + count + 511) / 512
    · rw [WriteArgs.image_last hstart hlast]
      have hend : storedEnd pos count = 512 * idx + (pos + count) % 512 := by
        unfold storedEnd
        split <;> omega
      rw [hend]
      change (Buf.patch _ 0 ((pos + count) % 512) (buf.from _)) j = _
      by_cases hin : j < (pos + count) % 512
      · rw [Buf.patch_start _ _ _ hin, if_pos (by omega), Buf.from_apply, hptr]
      · rw [Buf.patch_outside _ _ (by omega), if_neg (by omega), Buf.patch_start _ _ _ hj]
    · have hend : 512 * idx + 512 ≤ storedEnd pos count := by
        unfold storedEnd
        split <;> omega
      rw [WriteArgs.image_middle hstart hlast, if_pos (by omega), Buf.from_apply, hptr]

theorem advance_writeArgs (hlo : pos / 512 ≤ idx) (hhi : idx + 1 < (pos + count + 511) / 512) :
    (buf.from (512 * idx - pos)).from ((writeArgs pos count).advance idx)
      = buf.from (512 * (idx + 1) - pos) := by
  rw [Buf.from_from]
  congr 1
  by_cases hstart : idx = pos / 512
  · rw [WriteArgs.advance_start hstart (show idx + 1 ≠ (pos + count + 511) / 512 by omega)]
    change 512 * idx - pos + (512 - pos % 512) = _
    omega
  · rw [WriteArgs.advance_later hstart]
    omega

/-- The first copy stays inside the temporary buffer of 1024 bytes. -/
theorem advance_fits :
    idx = (writeArgs pos count).block_idx_start →
      (writeArgs pos count).block_off + (writeArgs pos count).advance idx ≤ 1024 := by
  intro hstart
  change idx = pos / 512 at hstart
  change pos % 512 + _ ≤ 1024
  by_cases hlast : idx + 1 = (pos + count + 511) / 512
  · rw [WriteArgs.advance_first hstart hlast]
    change pos % 512 + count ≤ 1024
    omega
  · rw [WriteArgs.advance_start hstart hlast]
    change pos % 512 + (512 - pos % 512) ≤ 1024
    omega

variable {s s1 s' : FS} {all : Nat → Nat}

theorem Stamped.nil (hi : Nat) (blocks : Nat → Nat) (s : FS) (lo : Nat) (hle : hi ≤ lo) :
    Stamped pos count buf lo hi blocks s s := by
  intro k j _ _
  rw [if_neg (by omega)]

variable (buf) in
/-- One turn stamps one block. -/
theorem Stamped.turn (ho : Owned s all) (hlo : pos / 512 ≤ idx)
    (hhi : idx < (pos + count + 511) / 512) :
    Stamped pos count buf idx (idx + 1) all s (s.writeSector (all idx)
      ((writeArgs pos count).image idx (s.disk.from (512 * all idx))
        (buf.from (512 * idx - pos)))) := by
  intro k j hj hk
  by_cases hkidx : k = idx
  · subst hkidx
    have hin : (s.writeSector (all k) ((writeArgs pos count).image k (s.disk.from (512 * all k))
        (buf.from (512 * k - pos)))).disk (512 * all k + j)
        = (writeArgs pos count).image k (s.disk.from (512 * all k)) (buf.from (512 * k - pos)) j := by
      refine (Buf.patch_inside _ _ (by omega) (by omega)).trans ?_
      rw [Nat.add_sub_cancel_left]
    rw [hin, image_writeArgs hlo hhi hj]
    by_cases hc : pos ≤ 512 * k + j ∧ 512 * k + j < storedEnd pos count
    · rw [if_pos hc, if_pos ⟨Nat.le_refl _, Nat.lt_succ_self _, hc.1, hc.2⟩]
    · rw [if_neg hc, if_neg (fun h => hc ⟨h.2.2.1, h.2.2.2⟩), Buf.from_apply]
  · have hne : all k ≠ all idx := fun heq => hkidx (ho.inj k idx hk heq)
    rw [if_neg (by omega)]
    exact Buf.patch_outside _ _ (by omega)

theorem Stamped.trans {lo mid hi : Nat} {blocks : Nat → Nat}
    (h1 : Stamped pos count buf lo mid blocks s s1)
    (h2 : Stamped pos count buf mid hi blocks s1 s') (hlo : lo ≤ mid) (hhi : mid ≤ hi) :
    Stamped pos count buf lo hi blocks s s' := by
  intro k j hj hk
  rw [h2 k j hj hk, h1 k j hj hk]
  by_cases hmid : k < mid
  · rw [if_neg (by omega)]
    by_cases hc : lo ≤ k ∧ k < mid ∧ pos ≤ 512 * k + j ∧ 512 * k + j < storedEnd pos count
    · rw [if_pos hc, if_pos (by omega)]
    · rw [if_neg hc, if_neg (by omega)]
  · by_cases hc : mid ≤ k ∧ k < hi ∧ pos ≤ 512 * k + j ∧ 512 * k + j < storedEnd pos count
    · rw [if_pos hc, if_pos (by omega)]
    · rw [if_neg hc, if_neg (by omega), if_neg (by omega)]

/-- Bytes stamped over a state whose blocks hold what those of another do. -/
theorem Stamped.of_agree {lo hi : Nat} {blocks : Nat → Nat}
    (h : Stamped pos count buf lo hi blocks s1 s')
    (hd : ∀ k j, j < 512 → blocks k ≠ 0 →
      s1.disk (512 * blocks k + j) = s.disk (512 * blocks k + j)) :
    Stamped pos count buf lo hi blocks s s' := by
  intro k j hj hk
  rw [h k j hj hk, hd k j hj hk]

/-- Bytes stamped, and the blocks left alone after. -/
theorem Stamped.then_agree {lo hi : Nat} {blocks : Nat → Nat}
    (h : Stamped pos count buf lo hi blocks s s1)
    (hd : ∀ k j, j < 512 → blocks k ≠ 0 →
      s'.disk (512 * blocks k + j) = s1.disk (512 * blocks k + j)) :
    Stamped pos count buf lo hi blocks s s' := by
  intro k j hj hk
  rw [hd k j hj hk, h k j hj hk]

/-- Fewer blocks are looked at. -/
theorem Stamped.sub {lo hi : Nat} {blocks blocks' : Nat → Nat}
    (h : Stamped pos count buf lo hi blocks' s s') (hsub : ∀ k, blocks k ≠ 0 → blocks' k = blocks k) :
    Stamped pos count buf lo hi blocks s s' := by
  intro k j hj hk
  have hk' := hsub k hk
  rw [← hk', h k j hj (by rwa [hk'])]

/-- Blocks that enter the array later are not touched by earlier turns. -/
theorem Stamped.extend {lo hi lo' hi' : Nat} {all1 all' : Nat → Nat} (g : Geometry s)
    (ho : Owned s all) (h : Stamped pos count buf lo hi all1 s s1) (hg : Grown lo hi s all s1 all1)
    (hg' : Grown lo' hi' s1 all1 s' all') (hin : ∀ k, lo ≤ k → k < hi → all1 k ≠ 0) :
    Stamped pos count buf lo hi all' s s1 := by
  intro k j hj hk
  by_cases h1 : all1 k = 0
  · have hdata := ((ho.grow hg).grow hg').used k hk |>.1
    rw [hg'.sb_eq, hg.sb_eq, g.data_lba, g.table_lba] at hdata
    have hsame : s1.disk (512 * all' k + j) = s.disk (512 * all' k + j) := by
      refine hg.disk _ (by omega) fun m _ _ hm => ?_
      have hne : all1 m ≠ all' k := by
        intro heq
        exact hg'.fresh k h1 hk (heq ▸ (ho.grow hg).used m hm)
      omega
    rw [hsame, if_neg (fun hc => hin k hc.1 hc.2.1 h1)]
  · rw [hg'.kept k h1]
    exact h k j hj h1

end Bytes

/-! ## How the loop ends -/

/-- Looking up one block: what it does to the array, to the count of free blocks and to the order in
    which blocks are handed out. -/
theorem ensureBlock_run {s : FS} (g : Geometry s) (all : Nat → Nat) {idx : Nat} (hidx : idx < 140) :
    (all idx = 0 ∧ s.freeBlocks = 0 ∧ ensureBlock all idx s = .ok (none, s)) ∨
    ∃ all1 s1, ensureBlock all idx s = .ok (some all1, s1) ∧ Grown idx (idx + 1) s all s1 all1 ∧
      all1 idx ≠ 0 ∧ (∀ k, k ≠ idx → all1 k = all k) ∧
      s1.freeBlocks + (if all idx = 0 then 1 else 0) = s.freeBlocks ∧
      (∀ m, nthFree s.block_bitmap ((if all idx = 0 then 1 else 0) + m)
        = nthFree s1.block_bitmap m) ∧
      (all idx = 0 → nthFree s.block_bitmap 0 = some (all1 idx - s.sb.data_start_lba)) ∧
      ∀ a, 512 * s.sb.inode_bitmap_lba ≤ a → s1.disk a = s.disk a := by
  rcases ensureBlock_cases g all idx with ⟨hne, hrun⟩ | ⟨h0, hnone, hrun⟩ | ⟨k, btmp, h0, ha, hrun⟩
  · right
    refine ⟨all, s, hrun, Grown.refl _ _ _ _, hne, fun _ _ => rfl, ?_, fun m => ?_,
      fun h => absurd h hne, fun _ _ => rfl⟩
    · rw [if_neg hne, Nat.add_zero]
    · rw [if_neg hne, Nat.zero_add]
  · exact Or.inl ⟨h0, FS.freeBlocks_eq_zero hnone, hrun⟩
  · right
    obtain ⟨hk, hclear, rfl, -⟩ := bitmapAllocABit_eq_some ha
    refine ⟨_, _, hrun, Grown.take g ha h0 (Nat.le_refl _) (Nat.lt_succ_self _) hidx, ?_,
      fun j hj => Function.update_of_ne hj _ _, ?_, fun m => ?_, fun _ => ?_, fun a hge => ?_⟩
    · rw [Function.update_self, g.data_lba]
      omega
    · rw [if_pos h0]
      exact FS.freeBlocks_takeBlock hk hclear
    · rw [if_pos h0, Nat.add_comm, nthFree, ha]
      rfl
    · rw [nthFree, ha, Function.update_self, Nat.add_sub_cancel_left]
      rfl
    · exact FS.takeBlock_disk g hk hge

/-- The entries from `lo` to `hi` are all there, the new ones in the order of the allocator. -/
def Filled (s : FS) (all all' : Nat → Nat) (lo hi : Nat) : Prop :=
  ∀ k, lo ≤ k → k < hi → all' k ≠ 0 ∧
    (all k = 0 → nthFree s.block_bitmap (missing all lo k) = some (all' k - s.sb.data_start_lba))

/-- With room for every block it needs the loop ends with all of them stamped; without, it stops on the
    way, and what it stored by then are bytes of the buffer in blocks of the inode. -/
theorem writeLoop_run {pos count : Nat} (buf : Buf) (hfit : pos + count ≤ 71680) (n idx : Nat)
    (hn : (pos + count + 511) / 512 - idx < n) (hlo : pos / 512 ≤ idx)
    (hhi : idx ≤ (pos + count + 511) / 512) {s : FS} (g : Geometry s) {all : Nat → Nat}
    (ho : Owned s all) :
    (missing all idx ((pos + count + 511) / 512) ≤ s.freeBlocks ∧ ∃ all' s',
      writeLoop (writeArgs pos count) n idx all (buf.from (512 * idx - pos)) s
        = .ok (some all', s') ∧
      Filled s all all' idx ((pos + count + 511) / 512) ∧
      Stamped pos count buf idx ((pos + count + 511) / 512) all' s s') ∨
    (s.freeBlocks < missing all idx ((pos + count + 511) / 512) ∧ ∃ stop s',
      writeLoop (writeArgs pos count) n idx all (buf.from (512 * idx - pos)) s = .ok (none, s') ∧
      idx ≤ stop ∧ stop ≤ (pos + count + 511) / 512 ∧
      Stamped pos count buf idx stop all s s') := by
  generalize hstop : (pos + count + 511) / 512 = stop at hn hhi ⊢
  have hend : (writeArgs pos count).block_idx_end = stop := hstop
  induction n generalizing idx s all with
  | zero => omega
  | succ n ih =>
      by_cases hidx : idx = stop
      · subst hidx
        left
        refine ⟨by simp [missing_self], all, s, ?_, fun k h1 h2 => absurd h2 (by omega),
          Stamped.nil _ _ _ _ (Nat.le_refl _)⟩
        have h := @writeLoop_stop (writeArgs pos count) n all (buf.from (512 * idx - pos)) s
        rwa [hend] at h
      · have hne : idx ≠ (writeArgs pos count).block_idx_end := by rwa [hend]
        have hlt : idx < (pos + count + 511) / 512 := by omega
        have h140 : idx < 140 := by omega
        have hmiss := missing_step all (show idx < stop by omega)
        rcases ensureBlock_run g all h140 with ⟨h0, hfree, he⟩ |
          ⟨all1, s1, he, hg1, hne1, hsame, hfree, hnth, hfirst, hd1⟩
        · right
          rw [if_pos h0] at hmiss
          exact ⟨by omega, idx, s, writeLoop_full hne h140 he, Nat.le_refl _, hhi,
            Stamped.nil _ _ _ _ (Nat.le_refl _)⟩
        · have ho1 := ho.grow hg1
          have hturn := Stamped.turn buf ho1 hlo hlt
          have hrun := writeLoop_turn n (buf.from (512 * idx - pos)) hne h140 he
            advance_fits
          generalize hs2 : s1.writeSector (all1 idx) _ = s2 at hturn hrun
          have hg2 : Grown idx (idx + 1) s all s2 all1 := by
            rw [← hs2]
            exact hg1.trans (Grown.write _ hne1 (Nat.le_refl _) (Nat.lt_succ_self _))
          have hbm : s2.block_bitmap = s1.block_bitmap := by rw [← hs2]; rfl
          have hfree2 : s2.freeBlocks = s1.freeBlocks := by
            unfold FS.freeBlocks
            rw [hbm]
          -- the lookup writes below the data blocks only
          have hstamp : Stamped pos count buf idx (idx + 1) all1 s s2 := by
            refine hturn.of_agree fun k j hj hk => hd1 _ ?_
            have hdata := (ho1.used k hk).1
            rw [hg1.sb_eq, g.data_lba, g.table_lba] at hdata
            omega
          rw [hend] at hrun
          by_cases hlast : idx + 1 = stop
          · left
            rw [if_pos hlast] at hrun
            rw [← hlast, missing_self, Nat.add_zero] at hmiss
            refine ⟨by rw [← hlast]; omega, all1, s2, hrun, fun k h1 h2 => ?_, hlast ▸ hstamp⟩
            obtain rfl : k = idx := by omega
            rw [missing_self]
            exact ⟨hne1, hfirst⟩
          · rw [if_neg hlast, advance_writeArgs hlo (by omega)] at hrun
            have hmiss1 : missing all (idx + 1) stop = missing all1 (idx + 1) stop :=
              missing_congr fun k h1 _ => by rw [hsame k (by omega)]
            rcases ih (idx + 1) (by omega) (hg2.geometry g) (ho.grow hg2) (by omega) (by omega) with
              ⟨hroom, all', s', hrec, hfill, hst⟩ | ⟨hroom, stop', s', hrec, hle, hle', hst⟩
            · left
              obtain ⟨hi, all2, hg3, -, hres⟩ := writeLoop_grown (hg2.geometry g) hrec
              obtain ⟨rfl, -⟩ := hres all' rfl
              refine ⟨by omega, all', s', hrun.trans hrec, fun k h1 h2 => ?_, ?_⟩
              · by_cases hk : k = idx
                · subst hk
                  rw [hg3.kept k hne1, missing_self]
                  exact ⟨hne1, hfirst⟩
                · obtain ⟨hk1, hk2⟩ := hfill k (by omega) h2
                  refine ⟨hk1, fun h0 => ?_⟩
                  have h01 : all1 k = 0 := by rw [hsame k hk, h0]
                  have hcount := missing_step all (show idx < k by omega)
                  have hcong : missing all (idx + 1) k = missing all1 (idx + 1) k :=
                    missing_congr fun m hm _ => by rw [hsame m (by omega)]
                  rw [hcount, hnth, hcong, ← hbm, hk2 h01, hg2.sb_eq]
              · refine (hstamp.extend g ho hg2 hg3 fun k h1 h2 => ?_).trans hst (Nat.le_succ _)
                  (by omega)
                rwa [show k = idx by omega]
            · right
              refine ⟨by omega, stop', s', hrun.trans hrec, by omega, hle', ?_⟩
              exact (hstamp.sub hg2.kept).trans (hst.sub hg2.kept) (Nat.le_succ _) hle

/-- A loop that stops early has taken the last free block. -/
theorem writeLoop_exhausted {w : WriteArgs} {n idx : Nat} {all : Nat → Nat} {buf : Buf} {s s' : FS}
    (g : Geometry s) (h : writeLoop w n idx all buf s = .ok (none, s')) : s'.freeBlocks = 0 := by
  induction n generalizing idx all buf s with
  | zero => exact absurd h (by simp [writeLoop])
  | succ n ih =>
      obtain ⟨-, hsome, -⟩ | ⟨hidx, ⟨he, -⟩ | ⟨all1, s1, he, hturn⟩⟩ := writeLoop_succ_eq_ok h
      · cases hsome
      · obtain ⟨-, hfree, hrun⟩ | ⟨all1, s1, hrun, -⟩ := ensureBlock_run g all hidx
        · rw [hrun] at he
          cases he
          exact hfree
        · rw [hrun] at he
          cases he
      · obtain ⟨hnone, -⟩ | ⟨all1', hsome, hg1, hne⟩ := ensureBlock_grown g hidx he
        · cases hnone
        cases hsome
        have hg2 := hg1.trans (Grown.write (w.image idx (s1.disk.from (512 * all1 idx)) buf)
          hne (Nat.le_refl _) (Nat.lt_succ_self _))
        split at hturn
        · cases hturn.1
        · exact ih (hg2.geometry g) hturn

end RecoverOS
