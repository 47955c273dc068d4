import RecoverOS.Fs.Inode

set_option autoImplicit false

/-! # What an inode holds

The abstract view of the inode layer: the block behind every file block (`Inode.blocks`), the byte at
every file offset (`Inode.byte`), and `inode_read` as a function of these. Two states in which an inode
has the same blocks and the same bytes in them cannot be told apart by `inode_read`. -/

namespace RecoverOS

namespace Inode

/-- The block behind file block `k`, 0 if there is none: what `get_blocks_lba` enters in its array. -/
def blocks (disk : Buf) (i : Inode) (k : Nat) : Nat :=
  if k < NDIRECT then i.i_sectors k
  else if i.i_sectors NDIRECT ≠ 0 ∧ k < MAX_FILE_BLOCKS_CNT then
    (disk.from (SECTOR_SIZE * i.i_sectors NDIRECT)).word (k - NDIRECT)
  else 0

/-- The byte at offset `a` of the file. A file block without a disk block reads as zeros. -/
def byte (disk : Buf) (i : Inode) (a : Nat) : Byte :=
  if i.blocks disk (a / 512) = 0 then 0 else disk (512 * i.blocks disk (a / 512) + a % 512)

variable {disk disk' : Buf} {i : Inode}

theorem blocks_direct {k : Nat} (hk : k < 12) : i.blocks disk k = i.i_sectors k := if_pos hk

theorem blocks_indirect {k : Nat} (h12 : i.i_sectors 12 ≠ 0) (h1 : 12 ≤ k) (h2 : k < 140) :
    i.blocks disk k = (disk.from (512 * i.i_sectors 12)).word (k - 12) := by
  unfold blocks
  rw [if_neg (Nat.not_lt.2 h1), if_pos ⟨h12, h2⟩]

theorem blocks_no_indirect {k : Nat} (h12 : i.i_sectors 12 = 0) (h1 : 12 ≤ k) :
    i.blocks disk k = 0 := by
  unfold blocks
  rw [if_neg (Nat.not_lt.2 h1), if_neg (fun h => h.1 h12)]

theorem blocks_beyond {k : Nat} (hk : 140 ≤ k) : i.blocks disk k = 0 := by
  unfold blocks
  rw [if_neg (Nat.not_lt.2 (Nat.le_trans (by decide) hk)),
    if_neg (fun h => absurd h.2 (Nat.not_lt.2 hk))]

/-- The blocks only depend on the sector numbers and on the indirect block. -/
theorem blocks_congr {j : Inode} (hsec : ∀ k ≤ 12, j.i_sectors k = i.i_sectors k)
    (hind : i.i_sectors 12 ≠ 0 → Buf.Agree disk' disk (512 * i.i_sectors 12) 512) (k : Nat) :
    j.blocks disk' k = i.blocks disk k := by
  by_cases hk : k < 12
  · rw [blocks_direct hk, blocks_direct hk, hsec k (by omega)]
  · by_cases h12 : i.i_sectors 12 = 0
    · rw [blocks_no_indirect h12 (by omega),
        blocks_no_indirect ((hsec 12 (Nat.le_refl _)).trans h12) (by omega)]
    · by_cases hk' : k < 140
      · have h12' : j.i_sectors 12 ≠ 0 := by rwa [hsec 12 (Nat.le_refl _)]
        rw [blocks_indirect h12 (by omega) hk', blocks_indirect h12' (by omega) hk',
          hsec 12 (Nat.le_refl _)]
        refine Buf.word_congr fun a h1 h2 => ?_
        exact hind h12 _ (by omega) (by omega)
      · rw [blocks_beyond (by omega), blocks_beyond (by omega)]

/-- The bytes only depend on the blocks and on what these hold. -/
theorem byte_congr {j : Inode} {a : Nat} (hb : j.blocks disk' (a / 512) = i.blocks disk (a / 512))
    (hd : i.blocks disk (a / 512) ≠ 0 →
      disk' (512 * i.blocks disk (a / 512) + a % 512)
        = disk (512 * i.blocks disk (a / 512) + a % 512)) :
    j.byte disk' a = i.byte disk a := by
  unfold byte
  rw [hb]
  by_cases h0 : i.blocks disk (a / 512) = 0
  · rw [if_pos h0, if_pos h0]
  · rw [if_neg h0, if_neg h0, hd h0]

end Inode

theorem run_getBlocksLba (i : Inode) (s : FS) : getBlocksLba i s = .ok (i.blocks s.disk, s) := rfl

@[simp] theorem getBlocksLba_eq_ok {i : Inode} {all : Nat → Nat} {s s' : FS} :
    getBlocksLba i s = .ok (all, s') ↔ all = i.blocks s.disk ∧ s' = s := by
  rw [run_getBlocksLba]
  simp only [Except.ok.injEq, Prod.mk.injEq]
  exact ⟨fun h => ⟨h.1.symm, h.2.symm⟩, fun h => ⟨h.1.symm, h.2.symm⟩⟩

/-! ## The loop of `inode_read` -/

/-- One turn of the loop: a sector, or zeros, goes to the buffer. -/
def readBlock (disk : Buf) (block_lba : Nat) (buf : Buf) (off : Nat) : Buf :=
  if block_lba ≠ 0 then buf.patch off 512 (disk.from (512 * block_lba))
  else buf.patch off 512 Buf.zero

section ReadLoop

variable {all : Nat → Nat} {stop : Nat} {s t : FS}

theorem readLoop_stop (n : Nat) (buf : Buf) (off : Nat) :
    readLoop all stop (n + 1) stop buf off s = .ok (buf, s) := by
  unfold readLoop
  rw [if_pos rfl]
  rfl

theorem readLoop_step {idx : Nat} (hne : idx ≠ stop) (hidx : idx < 140) (n : Nat) (buf : Buf)
    (off : Nat) :
    readLoop all stop (n + 1) idx buf off s =
      readLoop all stop n (idx + 1) (readBlock s.disk (all idx) buf off) (off + 512) s := by
  rw [readLoop, if_neg hne, Prog.run_require_bind (c := idx < MAX_FILE_BLOCKS_CNT) hidx]
  unfold readBlock
  by_cases h0 : all idx ≠ 0
  · rw [if_pos h0, if_pos h0, Prog.bind_of_ok (run_ideRead _ _ _ Nat.one_pos s)]
  · rw [if_neg h0, if_neg h0]
    rfl

/-- Past the array the loop faults. -/
theorem readLoop_past {idx : Nat} (hne : idx ≠ stop) (hidx : 140 ≤ idx) (n : Nat) (buf : Buf)
    (off : Nat) : readLoop all stop (n + 1) idx buf off s = .error .undefined := by
  rw [readLoop, if_neg hne]
  exact Prog.run_require_bind_not (c := idx < MAX_FILE_BLOCKS_CNT) (Nat.not_lt.2 hidx) _ s

/-- Two states whose listed blocks hold the same bytes give the same buffer, or the same fault; neither
    is changed. -/
theorem readLoop_congr (hd : ∀ k, all k ≠ 0 → Buf.Agree t.disk s.disk (512 * all k) 512)
    (stop n idx : Nat) (buf : Buf) (off : Nat) :
    (∃ e, readLoop all stop n idx buf off s = .error e ∧
      readLoop all stop n idx buf off t = .error e) ∨
    ∃ r, readLoop all stop n idx buf off s = .ok (r, s) ∧
      readLoop all stop n idx buf off t = .ok (r, t) := by
  induction n generalizing idx buf off with
  | zero => exact Or.inl ⟨.undefined, rfl, rfl⟩
  | succ n ih =>
      by_cases hstop : idx = stop
      · subst hstop
        exact Or.inr ⟨buf, readLoop_stop n buf off, readLoop_stop n buf off⟩
      · by_cases hidx : idx < 140
        · have hblock : readBlock t.disk (all idx) buf off = readBlock s.disk (all idx) buf off := by
            unfold readBlock
            by_cases h0 : all idx ≠ 0
            · rw [if_pos h0, if_pos h0]
              exact Buf.patch_congr _ _ _ fun k hk => hd idx h0 _ (by omega) (by omega)
            · rw [if_neg h0, if_neg h0]
          rw [readLoop_step hstop hidx, readLoop_step hstop hidx, hblock]
          exact ih _ _ _
        · exact Or.inl ⟨.undefined, readLoop_past hstop (by omega) n buf off,
            readLoop_past hstop (by omega) n buf off⟩

variable (all stop s) in
/-- A loop that ends inside the array fills the buffer with the bytes of the blocks it passes. -/
theorem readLoop_run (n idx : Nat) (hn : stop - idx < n) (h1 : idx ≤ stop) (h2 : stop ≤ 140)
    (buf : Buf) (off : Nat) :
    ∃ r, readLoop all stop n idx buf off s = .ok (r, s) ∧
      (∀ b < off, r b = buf b) ∧
      ∀ k j, idx ≤ k → k < stop → j < 512 →
        r (off + 512 * (k - idx) + j) = if all k = 0 then 0 else s.disk (512 * all k + j) := by
  induction n generalizing idx buf off with
  | zero => omega
  | succ n ih =>
      by_cases hstop : idx = stop
      · subst hstop
        exact ⟨buf, readLoop_stop n buf off, fun _ _ => rfl, fun k j hk hk' => absurd hk' (by omega)⟩
      · rw [readLoop_step hstop (by omega)]
        obtain ⟨r, hr, hlow, hval⟩ :=
          ih (idx + 1) (by omega) (by omega) (readBlock s.disk (all idx) buf off) (off + 512)
        refine ⟨r, hr, fun b hb => ?_, fun k j hk hk' hj => ?_⟩
        · rw [hlow b (by omega)]
          unfold readBlock
          split <;> exact Buf.patch_outside _ _ (by omega)
        · by_cases hkeq : k = idx
          · subst hkeq
            have hpos : off + 512 * (k - k) + j = off + j := by omega
            rw [hpos, hlow _ (by omega)]
            unfold readBlock
            by_cases h0 : all k = 0
            · rw [if_neg (fun h => h h0), if_pos h0]
              rw [Buf.patch_inside _ _ (by omega) (by omega), Buf.zero_apply]
            · rw [if_pos h0, if_neg h0]
              rw [Buf.patch_inside _ _ (by omega) (by omega), Buf.from_apply]
              congr 2
              omega
          · have hpos : off + 512 * (k - idx) + j = off + 512 + 512 * (k - (idx + 1)) + j := by
              omega
            rw [hpos]
            exact hval k j (by omega) hk' hj

/-- The loop ends inside the array. -/
theorem readLoop_range {n idx off : Nat} {b b' : Buf} {s' : FS}
    (h : readLoop all stop n idx b off s = .ok (b', s')) : idx ≤ stop ∧ stop < idx + n := by
  induction n generalizing idx b off with
  | zero => cases h
  | succ n ih =>
      unfold readLoop at h
      split at h
      · omega
      · obtain ⟨⟨⟩, s1, hreq, h1⟩ := Prog.bind_eq_ok.1 h
        obtain ⟨-, rfl⟩ := Prog.require_eq_ok.1 hreq
        dsimp only at h1
        split at h1
        · obtain ⟨b1, s2, hread, h2⟩ := Prog.bind_eq_ok.1 h1
          obtain ⟨-, -, rfl⟩ := ideRead_eq_ok.1 hread
          have hrange := ih h2
          omega
        · have hrange := ih h1
          omega

end ReadLoop

/-! ## `inode_read` -/

/-- The size of the temporary buffer for reading `n` bytes from `pos` on. -/
def readBufSize (pos n : Nat) : Nat := 512 * ((pos + n + 511) / 512 - pos / 512)

section Read

variable {mallocOk : Nat → Bool} {p count pos : Nat} {buf : Buf} {i j : Inode} {s t : FS}

/-- An inode with the same size, the same blocks and the same bytes in them reads the same, whatever is
    asked for. -/
theorem inodeRead_congr (hs : s.inodes p = some i) (ht : t.inodes p = some j)
    (hsize : j.i_size = i.i_size) (hblocks : j.blocks t.disk = i.blocks s.disk)
    (hd : ∀ k, i.blocks s.disk k ≠ 0 →
      Buf.Agree t.disk s.disk (512 * i.blocks s.disk k) 512) :
    (inodeRead mallocOk p buf count pos t).map Prod.fst
      = (inodeRead mallocOk p buf count pos s).map Prod.fst := by
  unfold inodeRead
  rw [Prog.bind_of_ok (run_inodeAt hs), Prog.bind_of_ok (run_inodeAt ht), hsize]
  dsimp only
  generalize realCount i.i_size count pos = rc
  by_cases h1 : i.i_size < u64 (pos + count) ∧ rc ≤ 0
  · rw [if_pos h1, if_pos h1]
    rfl
  · rw [if_neg h1, if_neg h1]
    generalize u64 (BLOCK_SIZE * _) = sz
    by_cases h2 : mallocOk sz = false
    · rw [if_pos h2, if_pos h2]
      rfl
    · rw [if_neg h2, if_neg h2]
      let s1 : FS := { s with live := s.live + 1 }
      let t1 : FS := { t with live := t.live + 1 }
      rw [Prog.bind_of_ok (a := ()) (t := t1) rfl, Prog.bind_of_ok (a := ()) (t := s1) rfl,
        Prog.bind_of_ok (run_getBlocksLba j t1), Prog.bind_of_ok (run_getBlocksLba i s1)]
      have hblocks1 : j.blocks t1.disk = i.blocks s1.disk := hblocks
      have hd1 : ∀ k, i.blocks s1.disk k ≠ 0 →
          Buf.Agree t1.disk s1.disk (512 * i.blocks s1.disk k) 512 := hd
      rw [hblocks1]
      generalize divRoundUp64 _ _ = stop
      rcases readLoop_congr hd1 stop (MAX_FILE_BLOCKS_CNT + 1 - pos / BLOCK_SIZE)
        (pos / BLOCK_SIZE) Buf.zero 0 with ⟨e, hs1, ht1⟩ | ⟨r, hs1, ht1⟩
      · rw [Prog.bind_of_error hs1, Prog.bind_of_error ht1]
      · rw [Prog.bind_of_ok hs1, Prog.bind_of_ok ht1]
        by_cases h3 : pos % BLOCK_SIZE + u64OfInt rc ≤ sz
        · rw [Prog.run_require_bind h3, Prog.run_require_bind h3]
          rfl
        · rw [Prog.run_require_bind_not h3, Prog.run_require_bind_not h3]

/-- Inside the file, `real_count` is what was asked for, as far as the file goes. -/
theorem realCount_inside {i_size : Nat} (hsize : i_size < 2 ^ 63) (hpos : pos ≤ i_size)
    (hfit : pos + count < 2 ^ 64) : realCount i_size count pos = (min count (i_size - pos) : Nat) := by
  have hpc : u64 (pos + count) = pos + count := u64_of_lt hfit
  have hsub : sub64 i_size pos = i_size - pos := sub64_of_le hpos (by omega)
  have hleft : i_size - pos < 2 ^ 63 := by omega
  unfold realCount
  rw [hpc, hsub, s64_of_lt hleft]
  split
  · omega
  · have hcount : count < 2 ^ 63 := by omega
    rw [s64_of_lt hcount]
    omega

/-- The bytes that `inode_read` asks `sys_malloc` for. -/
def readRequest (i_size count pos : Nat) : Nat :=
  u64 (BLOCK_SIZE *
    sub64 (divRoundUp64 (u64 (pos + u64OfInt (realCount i_size count pos))) BLOCK_SIZE) (pos / BLOCK_SIZE))

theorem readRequest_inside {i_size : Nat} (hsize : i_size ≤ 71680) (hpos : pos ≤ i_size)
    (hfit : pos + count < 2 ^ 64) :
    readRequest i_size count pos = readBufSize pos (min count (i_size - pos)) := by
  have hrc : realCount i_size count pos = (min count (i_size - pos) : Nat) :=
    realCount_inside (by omega) hpos hfit
  unfold readRequest
  rw [hrc, u64OfInt_natCast (by omega)]
  generalize hn : min count (i_size - pos) = n
  have hsum : u64 (pos + n) = pos + n := u64_of_lt (by omega)
  have hstop : divRoundUp64 (pos + n) 512 = (pos + n + 511) / 512 := divRoundUp64_of_lt (by omega)
  have hsub : sub64 ((pos + n + 511) / 512) (pos / 512) = (pos + n + 511) / 512 - pos / 512 :=
    sub64_of_le (by omega) (by omega)
  have hfits : u64 (512 * ((pos + n + 511) / 512 - pos / 512)) = readBufSize pos n := u64_of_lt (by omega)
  rw [hsum, hstop, hsub]
  exact hfits

/-- A call of `inode_read` whose arithmetic and whose loop are known. -/
theorem inodeRead_of_loop {n stop sz : Nat} {r : Buf} (hp : s.inodes p = some i)
    (hrc : realCount i.i_size count pos = n)
    (hgo : ¬ (i.i_size < u64 (pos + count) ∧ (n : Int) ≤ 0)) (hn64 : u64OfInt (n : Int) = n)
    (hstop : divRoundUp64 (u64 (pos + n)) BLOCK_SIZE = stop)
    (hsz : u64 (BLOCK_SIZE * sub64 stop (pos / BLOCK_SIZE)) = sz) (hm : mallocOk sz = true)
    (hloop : readLoop (i.blocks s.disk) stop (MAX_FILE_BLOCKS_CNT + 1 - pos / BLOCK_SIZE)
        (pos / BLOCK_SIZE) Buf.zero 0 { s with live := s.live + 1 }
      = .ok (r, { s with live := s.live + 1 }))
    (hreq : pos % BLOCK_SIZE + n ≤ sz) :
    inodeRead mallocOk p buf count pos s
      = .ok ((n, buf.patch 0 n (r.from (pos % BLOCK_SIZE))), s) := by
  unfold inodeRead
  rw [Prog.bind_of_ok (run_inodeAt hp)]
  dsimp only
  rw [hrc, if_neg hgo, hn64, hstop, hsz, hm, if_neg (by simp)]
  rw [Prog.bind_of_ok (a := ()) (t := { s with live := s.live + 1 }) rfl,
    Prog.bind_of_ok (run_getBlocksLba i _), Prog.bind_of_ok hloop, Prog.run_require_bind hreq]
  rfl

/-- At the end of the file there is nothing to read. -/
theorem inodeRead_end (hp : s.inodes p = some i)
    (hend : i.i_size < u64 (pos + count) ∧ realCount i.i_size count pos ≤ 0) :
    inodeRead mallocOk p buf count pos s = .ok ((-1, buf), s) := by
  unfold inodeRead
  rw [Prog.bind_of_ok (run_inodeAt hp)]
  dsimp only
  rw [if_pos hend]
  rfl

/-- Without memory for the temporary buffer nothing is read. -/
theorem inodeRead_no_memory (hp : s.inodes p = some i)
    (hgo : ¬ (i.i_size < u64 (pos + count) ∧ realCount i.i_size count pos ≤ 0))
    (hm : mallocOk (readRequest i.i_size count pos) = false) :
    inodeRead mallocOk p buf count pos s = .ok ((-1, buf), s) := by
  unfold inodeRead
  rw [Prog.bind_of_ok (run_inodeAt hp)]
  dsimp only
  rw [if_neg hgo]
  change (if mallocOk (readRequest i.i_size count pos) = false then _ else _ :
    Prog FS (Int × Buf)) s = _
  rw [if_pos hm]
  rfl

variable (mallocOk buf) in
/-- A read from inside the file that is asked for nothing or finds something returns what the file holds
    from there on, as far as it goes, and leaves the state alone. -/
theorem inodeRead_run (hp : s.inodes p = some i) (hsize : i.i_size ≤ 71680)
    (hpos : pos ≤ i.i_size) (hgo : count = 0 ∨ pos < i.i_size) (hfit : pos + count < 2 ^ 64)
    (hm : mallocOk (readBufSize pos (min count (i.i_size - pos))) = true) :
    ∃ out, inodeRead mallocOk p buf count pos s
        = .ok (((min count (i.i_size - pos) : Nat), out), s) ∧
      (∀ k < min count (i.i_size - pos), out k = i.byte s.disk (pos + k)) ∧
      ∀ k, min count (i.i_size - pos) ≤ k → out k = buf k := by
  have hrc : realCount i.i_size count pos = (min count (i.i_size - pos) : Nat) :=
    realCount_inside (by omega) hpos hfit
  have hgo' : ¬ (i.i_size < u64 (pos + count) ∧ ((min count (i.i_size - pos) : Nat) : Int) ≤ 0) := by
    have hpc : u64 (pos + count) = pos + count := u64_of_lt (by omega)
    rw [hpc]
    omega
  generalize hn : min count (i.i_size - pos) = n at hm hrc hgo' ⊢
  have hn64 : u64OfInt (n : Int) = n := u64OfInt_natCast (by omega)
  have hstop : divRoundUp64 (u64 (pos + n)) 512 = (pos + n + 511) / 512 := by
    have h1 : u64 (pos + n) = pos + n := u64_of_lt (by omega)
    rw [h1]
    exact divRoundUp64_of_lt (by omega)
  have hsz : u64 (512 * sub64 ((pos + n + 511) / 512) (pos / 512)) = readBufSize pos n := by
    have h1 : sub64 ((pos + n + 511) / 512) (pos / 512) = (pos + n + 511) / 512 - pos / 512 :=
      sub64_of_le (by omega) (by omega)
    rw [h1]
    exact u64_of_lt (by omega)
  obtain ⟨r, hr, -, hval⟩ := readLoop_run (i.blocks s.disk) ((pos + n + 511) / 512)
    { s with live := s.live + 1 } (141 - pos / 512) (pos / 512) (by omega) (by omega)
    (by omega) Buf.zero 0
  refine ⟨_, inodeRead_of_loop hp hrc hgo' hn64 hstop hsz hm hr ?_, fun k hk => ?_,
    fun k hk => Buf.patch_outside _ _ (by omega)⟩
  · change pos % 512 + n ≤ 512 * _
    omega
  · rw [Buf.patch_inside _ _ (by omega) (by omega)]
    have hk' := hval ((pos + k) / 512) ((pos + k) % 512) (by omega) (by omega) (by omega)
    change r (pos % 512 + (k - 0)) = _
    rw [show pos % 512 + (k - 0) = 0 + 512 * ((pos + k) / 512 - pos / 512) + (pos + k) % 512
      by omega, hk']
    rfl

end Read

end RecoverOS
