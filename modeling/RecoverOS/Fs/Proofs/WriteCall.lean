import RecoverOS.Fs.Proofs.Write

set_option autoImplicit false

/-! # One call of `inode_write`

The phases put together. `WriteFrame` says what a call leaves alone, whatever its arguments and its
outcome; `inodeWrite_run` says which outcome a call has and what it stores. -/

namespace RecoverOS

/-! ## What a call leaves alone -/

/-- From `s` to `s'` the object at `p` went from `i` to `i'` and kept its blocks; blocks it got were
    not used, and sectors of other blocks in use were not written. -/
structure WriteFrame (s s' : FS) (p : Nat) (i i' : Inode) : Prop where
  changes : ChangesInode s s' p i i'
  len : s'.block_bitmap.bytes_len = s.block_bitmap.bytes_len
  used_mono : ∀ b, s.used b → s'.used b
  foreign : ∀ b, s.used b → (∀ k, i.slot s.disk k ≠ b) → Buf.Agree s'.disk s.disk (512 * b) 512
  kept : ∀ k, i.slot s.disk k ≠ 0 → i'.slot s'.disk k = i.slot s.disk k
  fresh : ∀ k, i.slot s.disk k = 0 → i'.slot s'.disk k ≠ 0 → ¬ s.used (i'.slot s'.disk k)
  open_cnts : i'.i_open_cnts = i.i_open_cnts
  type : i'.f_type = i.f_type
  size_le : i.i_size ≤ i'.i_size
  recorded : (s.record i.i_no).i_sectors 12 ≠ 0 → (s'.record i.i_no).i_sectors 12 ≠ 0

namespace WriteFrame

variable {s s' s'' : FS} {p : Nat} {i i' i'' : Inode}

theorem of_live (hp : s.inodes p = some i) (n : Nat) :
    WriteFrame s { s with live := n } p i i where
  changes := (SameInodes.live s n).changes hp
  len := rfl
  used_mono _ h := h
  foreign _ _ _ _ _ _ := rfl
  kept _ _ := rfl
  fresh _ h h' := absurd h h'
  open_cnts := rfl
  type := rfl
  size_le := Nat.le_refl _
  recorded h := h

theorem trans (h : WriteFrame s s' p i i') (h' : WriteFrame s' s'' p i' i'') :
    WriteFrame s s'' p i i'' where
  changes := h.changes.trans h'.changes
  len := h'.len.trans h.len
  used_mono b hb := h'.used_mono b (h.used_mono b hb)
  foreign b hb hne := by
    refine (h'.foreign b (h.used_mono b hb) fun k heq => ?_).trans (h.foreign b hb hne)
    by_cases h0 : i.slot s.disk k = 0
    · by_cases h0' : i'.slot s'.disk k = 0
      · rw [h0'] at heq
        rw [← heq, ← h0] at hne
        exact hne k rfl
      · exact h.fresh k h0 h0' (heq ▸ hb)
    · exact hne k ((h.kept k h0).symm.trans heq)
  kept k hk := by
    have hk' : i'.slot s'.disk k ≠ 0 := by rwa [h.kept k hk]
    rw [h'.kept k hk', h.kept k hk]
  fresh k h0 hne := by
    by_cases h0' : i'.slot s'.disk k = 0
    · exact fun hu => h'.fresh k h0' hne (h.used_mono _ hu)
    · rw [h'.kept k h0']
      exact h.fresh k h0 h0'
  open_cnts := h'.open_cnts.trans h.open_cnts
  type := h'.type.trans h.type
  size_le := Nat.le_trans h.size_le h'.size_le
  recorded h12 := by
    have h2 := h'.recorded
    rw [h.changes.no] at h2
    exact h2 (h.recorded h12)

/-- File blocks of the inode keep their disk block. -/
theorem kept_block (h : WriteFrame s s' p i i') {k : Nat} (hk : i.blocks s.disk k ≠ 0) :
    i'.blocks s'.disk k = i.blocks s.disk k := by
  have hlt : k < 140 := by
    by_contra hge
    exact hk (Inode.blocks_beyond (by omega))
  have hkept := h.kept k
  rw [Inode.slot_block hlt, Inode.slot_block hlt] at hkept
  exact hkept hk

/-- Another inode keeps its blocks and the bytes in them. -/
theorem other_block (h : WriteFrame s s' p i i') (hinv : Inv s) {no : Nat} {j : Inode}
    (hc : s.Copy no j) (hne : no ≠ i.i_no) {k : Nat} (hk : j.blocks s.disk k ≠ 0) :
    Buf.Agree s'.disk s.disk (512 * j.blocks s.disk k) 512 := by
  have hlt : k < 140 := by
    by_contra hge
    exact hk (Inode.blocks_beyond (by omega))
  refine h.foreign _ (hinv.used_blocks hc hk) fun m heq => ?_
  rw [← Inode.slot_block hlt] at heq hk
  exact hne (hinv.slot_inj hc (hinv.copy h.changes.object) hk heq.symm).1

end WriteFrame

/-! ## The first phase -/

/-- The number of indirect blocks a write that ends at `last` has to allocate. -/
def needIndirect (i : Inode) (last : Nat) : Nat :=
  if i.i_sectors 12 = 0 ∧ 6144 < last then 1 else 0

/-- The state and the inode once `allocIndirect` has succeeded. -/
structure Begun (s : FS) (p : Nat) (i : Inode) (last : Nat) (s1 : FS) (i1 : Inode) : Prop where
  inv : Inv s1
  frame : WriteFrame s s1 p i i1
  size : i1.i_size = i.i_size
  blocks : ∀ k, i1.blocks s1.disk k = i.blocks s.disk k
  indirect : i1.i_sectors 12 = 0 ↔ i.i_sectors 12 = 0 ∧ last ≤ 6144
  free : s1.freeBlocks + needIndirect i last = s.freeBlocks
  order : ∀ m, nthFree s.block_bitmap (needIndirect i last + m) = nthFree s1.block_bitmap m
  used : ∀ b, s1.used b ↔ s.used b ∨ (b ≠ 0 ∧ i.i_sectors 12 = 0 ∧ i1.i_sectors 12 = b)
  disk : ∀ b, s.sb.data_start_lba ≤ b → b ≠ i1.i_sectors 12 ∨ i.i_sectors 12 ≠ 0 →
    Buf.Agree s1.disk s.disk (512 * b) 512

namespace Begun

variable {s s1 : FS} {p last : Nat} {i i1 : Inode}

theorem object (h : Begun s p i last s1 i1) : s1.inodes p = some i1 := h.frame.changes.object'

theorem copy (h : Begun s p i last s1 i1) : s1.Copy i.i_no i1 := by
  rw [← h.frame.changes.no]
  exact h.inv.copy h.object

end Begun

theorem allocIndirect_begun {s : FS} {p : Nat} {i : Inode} (hinv : Inv s)
    (hp : s.inodes p = some i) (last : Nat) :
    (s.freeBlocks < needIndirect i last ∧ allocIndirect p last s = .ok (false, s)) ∨
    ∃ s1 i1, allocIndirect p last s = .ok (true, s1) ∧ Begun s p i last s1 i1 := by
  rcases allocIndirect_cases hinv.geometry hp last with
    ⟨hno, hrun⟩ | ⟨h12, hlast, hnone, hrun⟩ | ⟨k, btmp, h12, hlast, halloc, hrun⟩
  · right
    have hneed : needIndirect i last = 0 := if_neg (by omega)
    refine ⟨s, i, hrun, ?_⟩
    constructor
    case inv => exact hinv
    case frame => exact WriteFrame.of_live hp s.live
    case size => rfl
    case blocks => exact fun _ => rfl
    case indirect => omega
    case free => rw [hneed, Nat.add_zero]
    case order => exact fun m => by rw [hneed, Nat.zero_add]
    case used =>
      refine fun b => ⟨Or.inl, ?_⟩
      rintro (hb | ⟨hb, h0, h1⟩)
      · exact hb
      · exact absurd (h1.symm.trans h0) hb
    case disk => exact fun _ _ _ _ _ _ => rfl
  · left
    have hneed : needIndirect i last = 1 := if_pos ⟨h12, hlast⟩
    rw [hneed, FS.freeBlocks_eq_zero hnone]
    exact ⟨Nat.one_pos, hrun⟩
  · right
    have hneed : needIndirect i last = 1 := if_pos ⟨h12, hlast⟩
    obtain ⟨hk, hclear, rfl, -⟩ := bitmapAllocABit_eq_some halloc
    have hne0 : s.sb.data_start_lba + k ≠ 0 := by
      rw [hinv.geometry.data_lba]
      omega
    have hblocks := linkIndirect_blocks (k := k) (p := p) hinv h12
    refine ⟨_, i.withIndirect (s.sb.data_start_lba + k), hrun, ?_⟩
    constructor
    case inv => exact inv_linkIndirect hinv hp h12 halloc
    case frame =>
      constructor
      case changes => exact changesInode_linkIndirect hinv hp halloc
      case len => rfl
      case used_mono => exact fun b hb => (linkIndirect_used hk).2 (Or.inl hb)
      case foreign => exact fun b hb _ => linkIndirect_agree hinv.geometry halloc hb
      case kept =>
        intro j hj
        by_cases h140 : j = 140
        · subst h140
          rw [Inode.slot_indirect] at hj
          exact absurd h12 hj
        · by_cases hlt : j < 140
          · rw [Inode.slot_block hlt, Inode.slot_block hlt]
            exact hblocks j
          · exact absurd (Inode.slot_beyond (by omega)) hj
      case fresh =>
        intro j hj hj'
        by_cases h140 : j = 140
        · subst h140
          rw [Inode.slot_indirect, Inode.withIndirect_12]
          exact FS.not_used_of_clear hclear
        · exfalso
          by_cases hlt : j < 140
          · rw [Inode.slot_block hlt] at hj hj'
            exact hj' ((hblocks j).trans hj)
          · exact hj' (Inode.slot_beyond (by omega))
      case open_cnts => rfl
      case type => rfl
      case size_le => exact Nat.le_refl _
      case recorded =>
        intro h
        have hagree := linkIndirect_records (p := p) (i := i) hinv halloc (hinv.no_lt hp)
        have hrec : (s.linkIndirect p i k).record i.i_no = s.record i.i_no :=
          @FS.record_congr s (s.linkIndirect p i k) rfl _ hagree
        rwa [hrec]
    case size => rfl
    case blocks => exact hblocks
    case indirect =>
      rw [Inode.withIndirect_12]
      exact ⟨fun h => absurd h hne0, fun h => absurd h.2 (by omega)⟩
    case free =>
      rw [hneed]
      exact FS.freeBlocks_takeBlock hk hclear
    case order =>
      intro m
      rw [hneed, Nat.add_comm, nthFree, halloc]
      rfl
    case used =>
      intro b
      rw [linkIndirect_used hk, Inode.withIndirect_12]
      constructor
      · rintro (hb | rfl)
        · exact Or.inl hb
        · exact Or.inr ⟨hne0, h12, rfl⟩
      · rintro (hb | ⟨-, -, rfl⟩)
        · exact Or.inl hb
        · exact Or.inr rfl
    case disk =>
      intro b hb hne a h1 h2
      rw [Inode.withIndirect_12] at hne
      have hge := hinv.geometry.data_lba
      have hge' := hinv.geometry.table_lba
      refine linkIndirect_disk hinv.geometry hk (by omega) ?_
      exact sector_apart (by omega) h1 h2

/-! ## The other two phases -/

section Phases

variable {s s1 s2 : FS} {p last lo hi : Nat} {i i1 : Inode} {all : Nat → Nat}

/-- The array the loop leaves can be stored. -/
theorem complete_of_grown (hinv : Inv s) (hp : s.inodes p = some i)
    (hg : Grown lo hi s (i.blocks s.disk) s2 all) (hind : i.i_sectors 12 = 0 → hi ≤ 12) :
    Complete s2 i all where
  small k := by
    by_cases hk : all k = 0
    · rw [hk]
      decide
    · have hown := (hinv.owned (hinv.copy hp)).grow hg
      exact FS.used_lt (hg.geometry hinv.geometry) (hown.used k hk)
  beyond k hk := by
    by_contra hne
    have hb : i.blocks s.disk k = 0 := Inode.blocks_beyond hk
    have hrange := hg.range k (by rwa [hb])
    omega
  no_indirect h12 k hk := by
    by_contra hne
    have hb : i.blocks s.disk k = 0 := Inode.blocks_no_indirect h12 hk
    have hrange := hg.range k (by rwa [hb])
    have hle := hind h12
    omega
  entry k hk := by
    have hsame := hg.sameInodes hinv (hinv.copy hp)
    rw [hsame.blocks_eq (hinv.copy hp)]
    rcases hg.entry hk with h | hfresh
    · exact Or.inl h
    · have hown := (hinv.owned (hinv.copy hp)).grow hg
      refine Or.inr ⟨hown.used k hk, fun a ha => ?_⟩
      exact hfresh (hinv.exclusive.used_of_holds (hsame.holds_iff.1 ha))
  inj k k' hk heq := ((hinv.owned (hinv.copy hp)).grow hg).inj k k' hk heq

/-- A sector in use that is none of the inode's is not written by the loop. -/
theorem Grown.foreign (hinv : Inv s) (hg : Grown lo hi s (i.blocks s.disk) s2 all) {b : Nat} (hb : s.used b)
    (hne : ∀ k, i.slot s.disk k ≠ b) : Buf.Agree s2.disk s.disk (512 * b) 512 := by
  intro a h1 h2
  have hdata := hb.1
  have hge := hinv.geometry.data_lba
  have hge' := hinv.geometry.table_lba
  refine hg.disk a (by omega) fun k _ _ hk => sector_apart ?_ h1 h2
  rintro rfl
  rcases hg.entry hk with ⟨h0, hkept⟩ | hfresh
  · have hlt : k < 140 := by
      by_contra hge
      exact h0 (Inode.blocks_beyond (by omega))
    refine hne k ?_
    rw [Inode.slot_block hlt, hkept]
  · exact hfresh hb

/-- A loop that ran out of blocks. -/
theorem Grown.writeFrame (hinv : Inv s) (hp : s.inodes p = some i)
    (hg : Grown lo hi s (i.blocks s.disk) s2 all) : WriteFrame s s2 p i i where
  changes := (hg.sameInodes hinv (hinv.copy hp)).changes hp
  len := hg.len
  used_mono _ := hg.used_mono
  foreign _ hb hne := hg.foreign hinv hb hne
  kept k _ := (hg.sameInodes hinv (hinv.copy hp)).slot_eq (hinv.copy hp) k
  fresh k h0 hne := by
    rw [(hg.sameInodes hinv (hinv.copy hp)).slot_eq (hinv.copy hp) k] at hne
    exact absurd h0 hne
  open_cnts := rfl
  type := rfl
  size_le := Nat.le_refl _
  recorded h := by
    rwa [(hg.sameInodes hinv (hinv.copy hp)).record_eq (hinv.no_lt hp)]

/-- A loop that found all its blocks, and the end of the call. -/
theorem Grown.writeFrame_commit (hinv : Inv s) (hp : s.inodes p = some i)
    (hg : Grown lo hi s (i.blocks s.disk) s2 all) (hind : i.i_sectors 12 = 0 → hi ≤ 12)
    (hlast : last ≤ 71680) :
    WriteFrame s (s2.commit p i all last) p i (writtenInode i all last) := by
  have hall := complete_of_grown hinv hp hg hind
  have hinv2 := hg.inv hinv (hinv.copy hp)
  have hp2 : s2.inodes p = some i := by rw [hg.inodes_eq, hp]
  have hslot := @writtenInode_slot s2 p last i all hall
  constructor
  case changes =>
    exact ((hg.sameInodes hinv (hinv.copy hp)).changes hp).trans (changesInode_commit last all hinv2 hp2)
  case len => rw [commit_block_bitmap, hg.len]
  case used_mono => exact fun b hb => (commit_used b).2 (hg.used_mono hb)
  case foreign =>
    intro b hb hne
    refine Buf.Agree.trans (fun a h1 h2 => ?_) (hg.foreign hinv hb hne)
    have habove := FS.used_above hinv.geometry hb (hinv.no_lt hp)
    rw [← FS.recordAddr_congr hg.sb_eq] at habove
    refine commit_disk (by omega) fun h12 => sector_apart ?_ h1 h2
    intro heq
    exact hne 140 (by rw [Inode.slot_indirect, heq])
  case kept =>
    intro k hk
    rw [hslot]
    by_cases h140 : k = 140
    · rw [if_pos h140, h140, Inode.slot_indirect]
    · rw [if_neg h140]
      by_cases hlt : k < 140
      · rw [Inode.slot_block hlt] at hk ⊢
        exact hg.kept k hk
      · exact absurd (Inode.slot_beyond (by omega)) hk
  case fresh =>
    intro k h0 hne
    rw [hslot] at hne ⊢
    by_cases h140 : k = 140
    · rw [if_pos h140] at hne
      rw [h140, Inode.slot_indirect] at h0
      exact absurd h0 hne
    · rw [if_neg h140] at hne ⊢
      by_cases hlt : k < 140
      · rw [Inode.slot_block hlt] at h0
        exact hg.fresh k h0 hne
      · exact absurd (hall.beyond k (by omega)) hne
  case open_cnts => rfl
  case type => rfl
  case size_le =>
    show i.i_size ≤ if last > i.i_size then last else i.i_size
    split <;> omega
  case recorded =>
    intro h12
    rw [commit_record_indirect hinv2 hp2 hall hlast]
    rcases (hinv.synced p i hp).indirect with h | h
    · rwa [← h]
    · exact absurd h h12

end Phases

/-! ## The call -/

/-- The arguments `inode_write` computes for its loop. -/
def callArgs (pos count : Nat) : WriteArgs where
  block_idx_start := pos / BLOCK_SIZE
  block_idx_end := divRoundUp (u64 (pos + count)) BLOCK_SIZE
  block_off := pos % BLOCK_SIZE
  block_end_off := u64 (pos + count) % BLOCK_SIZE
  count := count

theorem callArgs_eq {pos count : Nat} (hfit : pos + count ≤ 71680) :
    callArgs pos count = writeArgs pos count := by
  have h : u64 (pos + count) = pos + count := u64_of_lt (by omega)
  unfold callArgs writeArgs
  rw [h]
  rfl

section Call

variable {s s1 s2 s' : FS} {p count pos : Nat} {buf : Buf} {i i1 : Inode} {r : Int}
  {all : Nat → Nat}

theorem inodeWrite_too_long (hlast : u64 (pos + count) > MAX_FILE_SIZE) :
    inodeWrite p buf count pos s = .ok (-1, s) := by
  unfold inodeWrite
  exact congrFun (if_pos hlast) s

theorem inodeWrite_no_indirect (hlast : ¬ u64 (pos + count) > MAX_FILE_SIZE)
    (hrun : allocIndirect p (u64 (pos + count)) { s with live := s.live + 1 } = .ok (false, s1)) :
    inodeWrite p buf count pos s = .ok (-1, s1) := by
  unfold inodeWrite
  dsimp only
  rw [if_neg hlast, Prog.bind_of_ok (a := ()) (t := { s with live := s.live + 1 }) rfl,
    Prog.bind_of_ok hrun]
  rfl

/-- Once the indirect block is there, the loop decides. -/
theorem inodeWrite_loop (hlast : ¬ u64 (pos + count) > MAX_FILE_SIZE)
    (hrun : allocIndirect p (u64 (pos + count)) { s with live := s.live + 1 } = .ok (true, s1))
    (hobj : s1.inodes p = some i1) :
    inodeWrite p buf count pos s =
      (writeLoop (callArgs pos count) (141 - pos / 512) (pos / 512) (i1.blocks s1.disk) buf >>=
        fun written =>
          match written with
          | none => pure (-1)
          | some all_blocks => do
              writeBack p all_blocks (u64 (pos + count))
              sysFree
              pure (s64 count)) s1 := by
  unfold inodeWrite
  dsimp only
  rw [if_neg hlast, Prog.bind_of_ok (a := ()) (t := { s with live := s.live + 1 }) rfl,
    Prog.bind_of_ok hrun]
  simp only [Bool.true_eq_false, if_false]
  rw [Prog.bind_of_ok (run_inodeAt hobj), Prog.bind_of_ok (run_getBlocksLba i1 s1)]
  rfl

theorem inodeWrite_full (hlast : ¬ u64 (pos + count) > MAX_FILE_SIZE)
    (hrun : allocIndirect p (u64 (pos + count)) { s with live := s.live + 1 } = .ok (true, s1))
    (hobj : s1.inodes p = some i1)
    (hloop : writeLoop (callArgs pos count) (141 - pos / 512) (pos / 512) (i1.blocks s1.disk) buf s1
      = .ok (none, s2)) :
    inodeWrite p buf count pos s = .ok (-1, s2) := by
  rw [inodeWrite_loop hlast hrun hobj, Prog.bind_of_ok hloop]
  rfl

theorem inodeWrite_done (hlast : ¬ u64 (pos + count) > MAX_FILE_SIZE)
    (hrun : allocIndirect p (u64 (pos + count)) { s with live := s.live + 1 } = .ok (true, s1))
    (hobj : s1.inodes p = some i1)
    (hloop : writeLoop (callArgs pos count) (141 - pos / 512) (pos / 512) (i1.blocks s1.disk) buf s1
      = .ok (some all, s2)) (hobj2 : s2.inodes p = some i1) (hno : i1.i_no < 4096) :
    inodeWrite p buf count pos s = .ok (s64 count,
      { s2.commit p i1 all (u64 (pos + count)) with
        live := (s2.commit p i1 all (u64 (pos + count))).live - 1 }) := by
  rw [inodeWrite_loop hlast hrun hobj, Prog.bind_of_ok hloop]
  dsimp only
  rw [Prog.bind_of_ok (writeBack_run hobj2 hno all _)]
  rfl

/-- The ways in which a call of `inode_write` returns: the file would be too long, there is no block for the
    indirect block, the loop finds no free block, or all of the buffer is written. -/
theorem inodeWrite_eq_ok (hinv : Inv s) (hp : s.inodes p = some i)
    (h : inodeWrite p buf count pos s = .ok (r, s')) :
    (u64 (pos + count) > MAX_FILE_SIZE ∧ r = -1 ∧ s' = s) ∨
    u64 (pos + count) ≤ MAX_FILE_SIZE ∧
      ((s.freeBlocks < needIndirect i (u64 (pos + count)) ∧ r = -1 ∧ s' = { s with live := s.live + 1 }) ∨
      ∃ s1 i1, allocIndirect p (u64 (pos + count)) { s with live := s.live + 1 } = .ok (true, s1) ∧
        Begun { s with live := s.live + 1 } p i (u64 (pos + count)) s1 i1 ∧
        ((writeLoop (callArgs pos count) (141 - pos / 512) (pos / 512) (i1.blocks s1.disk) buf s1
            = .ok (none, s') ∧ r = -1) ∨
          ∃ all s2, writeLoop (callArgs pos count) (141 - pos / 512) (pos / 512) (i1.blocks s1.disk) buf s1
              = .ok (some all, s2) ∧ s2.inodes p = some i1 ∧ r = s64 count ∧
            s' = { s2.commit p i1 all (u64 (pos + count)) with
              live := (s2.commit p i1 all (u64 (pos + count))).live - 1 })) := by
  by_cases hlast : u64 (pos + count) > MAX_FILE_SIZE
  · rw [inodeWrite_too_long hlast] at h
    cases h
    exact .inl ⟨hlast, rfl, rfl⟩
  refine .inr ⟨Nat.not_lt.1 hlast, ?_⟩
  have hinv0 := hinv.live (s.live + 1)
  have hp0 : ({ s with live := s.live + 1 } : FS).inodes p = some i := hp
  obtain ⟨hfree, hrun⟩ | ⟨s1, i1, hrun, hb⟩ := allocIndirect_begun hinv0 hp0 (u64 (pos + count))
  · rw [inodeWrite_no_indirect hlast hrun] at h
    cases h
    exact .inl ⟨hfree, rfl, rfl⟩
  refine .inr ⟨s1, i1, hrun, hb, ?_⟩
  cases hloop : writeLoop (callArgs pos count) (141 - pos / 512) (pos / 512) (i1.blocks s1.disk) buf s1 with
  | error e =>
      rw [inodeWrite_loop hlast hrun hb.object, Prog.bind_of_error hloop] at h
      cases h
  | ok res =>
      obtain ⟨o, s2⟩ := res
      cases o with
      | none =>
          rw [inodeWrite_full hlast hrun hb.object hloop] at h
          cases h
          exact .inl ⟨rfl, rfl⟩
      | some all =>
          obtain ⟨hi, all', hg, -⟩ := writeLoop_grown hb.inv.geometry hloop
          have hobj2 : s2.inodes p = some i1 := by rw [hg.inodes_eq, hb.object]
          rw [inodeWrite_done hlast hrun hb.object hloop hobj2 (hb.inv.no_lt hb.object)] at h
          obtain ⟨hr, hs'⟩ := Prod.mk.inj (Except.ok.inj h)
          exact .inr ⟨all, s2, rfl, hobj2, hr.symm, hs'.symm⟩

/-- What a call that stored all it was given did to the size, the indirect block and the blocks in
    use. -/
structure WriteDone (s s' : FS) (i i' : Inode) (last : Nat) : Prop where
  size : i'.i_size = max i.i_size last
  indirect : i'.i_sectors 12 = 0 ↔ i.i_sectors 12 = 0 ∧ last ≤ 6144
  record_indirect : (s'.record i.i_no).i_sectors 12 = i'.i_sectors 12
  used : ∀ b, s'.used b ↔
    s.used b ∨ ∃ k, i.slot s.disk k = 0 ∧ i'.slot s'.disk k = b ∧ b ≠ 0

/-- The loop and the end of a call, after the first phase. -/
theorem WriteDone.of_grown {last lo hi : Nat} (hb : Begun s p i last s1 i1)
    (hg : Grown lo hi s1 (i1.blocks s1.disk) s2 all) (hhi : i1.i_sectors 12 = 0 → hi ≤ 12)
    (hlast : last ≤ 71680) :
    WriteDone s (s2.commit p i1 all last) i (writtenInode i1 all last) last where
  size := by
    show (if last > i1.i_size then last else i1.i_size) = _
    rw [hb.size]
    split <;> omega
  indirect := by
    rw [writtenInode_indirect]
    exact hb.indirect
  record_indirect := by
    have hobj2 : s2.inodes p = some i1 := by rw [hg.inodes_eq, hb.object]
    have h := commit_record_indirect (hg.inv hb.inv (hb.inv.copy hb.object)) hobj2
      (complete_of_grown hb.inv hb.object hg hhi) hlast
    rw [hb.frame.changes.no] at h
    exact h.trans writtenInode_indirect.symm
  used b := by
    have hall := complete_of_grown hb.inv hb.object hg hhi
    have hslot := @writtenInode_slot s2 p last i1 all hall
    rw [commit_used, hg.used, hb.used]
    constructor
    · rintro ((hu | ⟨hb0, h12, h12'⟩) | ⟨k, h0, hne, rfl⟩)
      · exact Or.inl hu
      · refine Or.inr ⟨140, by rw [Inode.slot_indirect, h12], ?_, hb0⟩
        rw [hslot, if_pos rfl, h12']
      · have hlt : k < 140 := by
          by_contra hge
          exact hne (hall.beyond k (by omega))
        refine Or.inr ⟨k, ?_, ?_, hne⟩
        · rw [Inode.slot_block hlt, ← hb.blocks, h0]
        · rw [hslot, if_neg (by omega)]
    · rintro (hu | ⟨k, h0, hk, hb0⟩)
      · exact Or.inl (Or.inl hu)
      · rw [hslot] at hk
        by_cases h140 : k = 140
        · rw [if_pos h140] at hk
          rw [h140, Inode.slot_indirect] at h0
          exact Or.inl (Or.inr ⟨hb0, h0, hk⟩)
        · rw [if_neg h140] at hk
          have hlt : k < 140 := by
            by_contra hge
            exact hb0 (hk.symm.trans (hall.beyond k (by omega)))
          rw [Inode.slot_block hlt, ← hb.blocks] at h0
          exact Or.inr ⟨k, h0, by rwa [hk], hk⟩

/-- Whatever its arguments, a call of `inode_write` that returns keeps the invariant and leaves alone
    what is not its own. -/
theorem inodeWrite_cases (hinv : Inv s) (hp : s.inodes p = some i)
    (h : inodeWrite p buf count pos s = .ok (r, s')) :
    Inv s' ∧ ∃ i', WriteFrame s s' p i i' ∧
      ((r = -1 ∧ i'.i_size = i.i_size ∧ ∀ k, i'.blocks s'.disk k = i.blocks s.disk k) ∨
        (r = s64 count ∧ u64 (pos + count) ≤ MAX_FILE_SIZE ∧
          WriteDone s s' i i' (u64 (pos + count)))) := by
  have hframe0 := WriteFrame.of_live hp (s.live + 1)
  obtain ⟨-, rfl, rfl⟩ | ⟨hlast, ⟨-, rfl, rfl⟩ | ⟨s1, i1, hrun, hb, hend⟩⟩ := inodeWrite_eq_ok hinv hp h
  · exact ⟨hinv, i, WriteFrame.of_live hp _, Or.inl ⟨rfl, rfl, fun _ => rfl⟩⟩
  · exact ⟨hinv.live _, i, hframe0, Or.inl ⟨rfl, rfl, fun _ => rfl⟩⟩
  have hframe1 := hframe0.trans hb.frame
  obtain ⟨hloop, rfl⟩ | ⟨all', s2, hloop, hobj2, rfl, rfl⟩ := hend
  · obtain ⟨hi, all, hg, -⟩ := writeLoop_grown hb.inv.geometry hloop
    refine ⟨hg.inv hb.inv (hb.inv.copy hb.object), i1, hframe1.trans (hg.writeFrame hb.inv hb.object),
      Or.inl ⟨rfl, hb.size, fun k => ?_⟩⟩
    have hsame := hg.sameInodes hb.inv (hb.inv.copy hb.object)
    rw [hsame.blocks_eq (hb.inv.copy hb.object), hb.blocks]
  · obtain ⟨hi, all, hg, -, hres⟩ := writeLoop_grown hb.inv.geometry hloop
    obtain ⟨rfl, rfl⟩ := hres all' rfl
    have hinv2 := hg.inv hb.inv (hb.inv.copy hb.object)
    have hlast' : u64 (pos + count) ≤ 71680 := hlast
    have hhi : i1.i_sectors 12 = 0 → (callArgs pos count).block_idx_end ≤ 12 := by
      intro h12
      have hle := (hb.indirect.1 h12).2
      show (u64 (pos + count) + 512 - 1) / 512 ≤ 12
      omega
    have hcommit := inv_commit hinv2 hobj2 (complete_of_grown hb.inv hb.object hg hhi) hlast'
    have hframe2 := hg.writeFrame_commit hb.inv hb.object hhi hlast'
    have hdone := WriteDone.of_grown hb hg hhi hlast'
    refine ⟨hcommit.live _, _, (hframe1.trans hframe2).trans
      (WriteFrame.of_live hframe2.changes.object' _), Or.inr ⟨rfl, hlast', ?_⟩⟩
    exact ⟨hdone.size, hdone.indirect, hdone.record_indirect, hdone.used⟩

/-- The number of blocks a write of `count` bytes at `pos` has to allocate. -/
def blocksNeeded (s : FS) (i : Inode) (pos count : Nat) : Nat :=
  needIndirect i (pos + count) + missing (i.blocks s.disk) (pos / 512) ((pos + count + 511) / 512)

variable (buf) in
/-- A write that fits the largest file returns: with `count` if there are enough free blocks, and else
    with -1. Either way what it stores is bytes of the buffer at their place in the file. -/
theorem inodeWrite_run (hinv : Inv s) (hp : s.inodes p = some i) (hfit : pos + count ≤ 71680) :
    (blocksNeeded s i pos count ≤ s.freeBlocks ∧ ∃ s' i',
      inodeWrite p buf count pos s = .ok (count, s') ∧ s'.inodes p = some i' ∧
      (∀ k, pos / 512 ≤ k → k < (pos + count + 511) / 512 → i'.blocks s'.disk k ≠ 0 ∧
        (i.blocks s.disk k = 0 → nthFree s.block_bitmap
          (needIndirect i (pos + count) + missing (i.blocks s.disk) (pos / 512) k)
            = some (i'.blocks s'.disk k - s.sb.data_start_lba))) ∧
      Stamped pos count buf (pos / 512) ((pos + count + 511) / 512) (i'.blocks s'.disk) s s') ∨
    (s.freeBlocks < blocksNeeded s i pos count ∧ ∃ s' stop,
      inodeWrite p buf count pos s = .ok (-1, s') ∧ stop ≤ (pos + count + 511) / 512 ∧
      Stamped pos count buf (pos / 512) stop (i.blocks s.disk) s s') := by
  have hu : u64 (pos + count) = pos + count := u64_of_lt (by omega)
  have hs64 : s64 count = count := s64_of_lt (by omega)
  have hlast : ¬ u64 (pos + count) > MAX_FILE_SIZE := by
    rw [hu]
    exact Nat.not_lt.2 hfit
  have hinv0 := hinv.live (s.live + 1)
  have hp0 : ({ s with live := s.live + 1 } : FS).inodes p = some i := hp
  rcases allocIndirect_begun hinv0 hp0 (u64 (pos + count)) with ⟨hfree, hrun⟩ | ⟨s1, i1, hrun, hb⟩
  · right
    rw [hu] at hfree
    have hfree' : s.freeBlocks < needIndirect i (pos + count) := hfree
    refine ⟨Nat.lt_of_lt_of_le hfree' (Nat.le_add_right _ _), _, pos / 512,
      inodeWrite_no_indirect hlast hrun, by omega, ?_⟩
    exact Stamped.nil _ _ _ _ (Nat.le_refl _)
  · have hall1 : i1.blocks s1.disk = i.blocks s.disk := funext hb.blocks
    have hc1 := hb.inv.copy hb.object
    have hown := hb.inv.owned hc1
    have hptr : buf.from (512 * (pos / 512) - pos) = buf := by
      rw [show 512 * (pos / 512) - pos = 0 by omega, Buf.from_zero]
    have hfree1 : s1.freeBlocks + needIndirect i (pos + count) = s.freeBlocks := by
      have h := hb.free
      rw [hu] at h
      exact h
    have horder : ∀ m, nthFree s.block_bitmap (needIndirect i (pos + count) + m)
        = nthFree s1.block_bitmap m := by
      have h := hb.order
      rw [hu] at h
      exact h
    have hsb1 : s1.sb = s.sb := hb.frame.changes.sb
    -- a block of the grown array is none that the first phase wrote
    have hbefore : ∀ b, s1.sb.data_start_lba ≤ b → (i1.i_sectors 12 ≠ 0 → i1.i_sectors 12 ≠ b) →
        ∀ j < 512, s1.disk (512 * b + j) = s.disk (512 * b + j) := by
      intro b hdata hne j hj
      have hne' : b ≠ i1.i_sectors 12 ∨ i.i_sectors 12 ≠ 0 := by
        by_cases h12 : i1.i_sectors 12 = 0
        · have h0 := hinv.geometry.data_lba
          rw [hsb1] at hdata
          exact Or.inl (by omega)
        · exact Or.inl (hne h12).symm
      rw [hsb1] at hdata
      exact hb.disk b hdata hne' _ (by omega) (by omega)
    rcases writeLoop_run buf hfit (141 - pos / 512) (pos / 512) (by omega) (Nat.le_refl _)
      (by omega) hb.inv.geometry hown with
      ⟨hroom, all, s2, hloop, hfill, hst⟩ | ⟨hroom, stop, s2, hloop, -, hle, hst⟩
    · left
      rw [hptr, ← callArgs_eq hfit] at hloop
      obtain ⟨hi, all', hg, -, hres⟩ := writeLoop_grown hb.inv.geometry hloop
      obtain ⟨rfl, hhi'⟩ := hres all rfl
      have hobj2 : s2.inodes p = some i1 := by rw [hg.inodes_eq, hb.object]
      have hhi : i1.i_sectors 12 = 0 → hi ≤ 12 := by
        intro h12
        have hle := (hb.indirect.1 h12).2
        rw [hhi', callArgs_eq hfit]
        show (pos + count + 511) / 512 ≤ 12
        omega
      have hall := complete_of_grown hb.inv hb.object hg hhi
      have hblocks := commit_blocks p (u64 (pos + count)) hall
      have hrunw := inodeWrite_done hlast hrun hb.object hloop hobj2 (hb.inv.no_lt hb.object)
      have hne12 : ∀ k, all k ≠ 0 → i1.i_sectors 12 ≠ 0 → i1.i_sectors 12 ≠ all k :=
        fun k hk h12 => hg.entry_ne_indirect hb.inv hc1 hc1 h12 hk
      rw [hs64] at hrunw
      unfold blocksNeeded
      rw [hall1] at hroom
      refine ⟨by omega, _, writtenInode i1 all (u64 (pos + count)), hrunw, ?_, fun k h1 h2 => ?_, ?_⟩
      · exact (changesInode_commit _ _ (hg.inv hb.inv hc1) hobj2).object'
      · obtain ⟨hk, hnth⟩ := hfill k h1 h2
        refine ⟨(hblocks k).trans_ne hk, fun h0 => ?_⟩
        rw [hall1] at hnth
        rw [horder, hnth h0, hsb1]
        exact congrArg (fun b => some (b - s.sb.data_start_lba)) (hblocks k).symm
      · have hst1 : Stamped pos count buf (pos / 512) ((pos + count + 511) / 512) all s
            (s2.commit p i1 all (u64 (pos + count))) := by
          refine (hst.of_agree fun k j hj hk => ?_).then_agree fun k j hj hk => ?_
          · have hdata := ((hown.grow hg).used k hk).1
            rw [hg.sb_eq] at hdata
            exact hbefore _ hdata (hne12 k hk) j hj
          · have hused := (hown.grow hg).used k hk
            have habove := FS.used_above (hg.geometry hb.inv.geometry) hused
              (hb.inv.no_lt hb.object)
            refine commit_disk (by omega) fun h12 => ?_
            have hne := hne12 k hk h12
            omega
        intro k j hj hk
        have hk' : all k ≠ 0 := fun h0 => hk ((hblocks k).trans h0)
        have h := hst1 k j hj hk'
        have hbk : (writtenInode i1 all (u64 (pos + count))).blocks
            ({ s2.commit p i1 all (u64 (pos + count)) with
              live := (s2.commit p i1 all (u64 (pos + count))).live - 1 } : FS).disk k = all k :=
          hblocks k
        rw [hbk]
        exact h
    · right
      rw [hptr, ← callArgs_eq hfit] at hloop
      rw [hall1] at hroom hst
      unfold blocksNeeded
      refine ⟨by omega, s2, stop, inodeWrite_full hlast hrun hb.object hloop, hle, ?_⟩
      refine hst.of_agree fun k j hj hk => ?_
      rw [← hall1] at hk ⊢
      have hdata := (hown.used k hk).1
      refine hbefore _ hdata (fun h12 => ?_) j hj
      exact (Grown.refl 0 0 s1 (i1.blocks s1.disk)).entry_ne_indirect hb.inv hc1 hc1 h12 hk

/-- An `inode_write` that fails although the file may be so long has taken the last free block. -/
theorem inodeWrite_exhausted (hinv : Inv s) (hp : s.inodes p = some i)
    (hlast : ¬ u64 (pos + count) > MAX_FILE_SIZE) (hcount : s64 count ≠ -1)
    (h : inodeWrite p buf count pos s = .ok (-1, s')) : s'.freeBlocks = 0 := by
  obtain ⟨hlong, -⟩ | ⟨-, ⟨hfree, -, rfl⟩ | ⟨s1, i1, hrun, hb, ⟨hloop, -⟩ | ⟨all, s2, -, -, hr, -⟩⟩⟩ :=
    inodeWrite_eq_ok hinv hp h
  · exact absurd hlong hlast
  · have hle : needIndirect i (u64 (pos + count)) ≤ 1 := by
      unfold needIndirect
      split <;> omega
    show s.freeBlocks = 0
    omega
  · exact writeLoop_exhausted hb.inv.geometry hloop
  · exact absurd hr.symm hcount

end Call

end RecoverOS
