import RecoverOS.Base.Run
import RecoverOS.Fs.Proofs.Mount
import RecoverOS.Fs.Proofs.WriteCall

set_option autoImplicit false

/-! # Sequences of calls of the inode layer

The states that calls of `fs/inode.c`, one after the other, lead to from a partition that was just
formatted and mounted. -/

namespace RecoverOS

/-- A call of the inode layer with its arguments. -/
inductive InodeCall where
  | alloc (file_type : Nat)
  | open (inode_no : Nat)
  | close (inode : Nat)
  | read (mallocOk : Nat → Bool) (inode : Nat) (buf : Buf) (count pos : Nat)
  | write (inode : Nat) (buf : Buf) (count pos : Nat)
  | free (inode : Nat)

namespace InodeCall

/-- What the call does; the value it returns is dropped. -/
def run : InodeCall → Prog FS Unit
  | alloc file_type => do let _ ← inodeAlloc file_type; pure ()
  | .open inode_no => do let _ ← inodeOpen inode_no; pure ()
  | close inode => inodeClose inode
  | read mallocOk inode buf count pos => do let _ ← inodeRead mallocOk inode buf count pos; pure ()
  | write inode buf count pos => do let _ ← inodeWrite inode buf count pos; pure ()
  | free inode => inodeFree inode

/-- What the callers of the inode layer see to: only allocated inodes are opened, a write goes to an open
    inode, and an inode that is deleted is not the root and has no other reference. -/
def Allowed (s : FS) : InodeCall → Prop
  | alloc file_type => file_type < 2 ^ 32
  | .open inode_no => s.allocated inode_no
  | write inode _ _ _ => ∃ i, s.inodes inode = some i
  | free inode => inode ≠ s.root_dir_inode ∧ ∃ i, s.inodes inode = some i ∧ i.i_open_cnts = 1
  | _ => True

/-- A write starts inside the file or at its end, and ends within the largest file. -/
def WithinFile (s : FS) : InodeCall → Prop
  | write inode _ count pos => ∀ i, s.inodes inode = some i → pos ≤ i.i_size ∧ pos + count ≤ MAX_FILE_SIZE
  | _ => True

/-- One call. -/
def Step (s : FS) (c : InodeCall) (s' : FS) : Prop := c.Allowed s ∧ c.run s = .ok ((), s')

/-- One call that writes within a file, if it writes. -/
def StepWithin (s : FS) (c : InodeCall) (s' : FS) : Prop := c.WithinFile s ∧ Step s c s'

end InodeCall

/-- The states that calls lead to from a partition just formatted and mounted. -/
def Reachable (s : FS) : Prop :=
  ∃ part disk s0 cs, filesysInit part (FS.boot disk) = .ok ((), s0) ∧ Run InodeCall.Step s0 cs s

/-- The states that calls lead to whose writes stay within the file. -/
def ReachableWithin (s : FS) : Prop :=
  ∃ part disk s0 cs, filesysInit part (FS.boot disk) = .ok ((), s0) ∧ Run InodeCall.StepWithin s0 cs s

theorem ReachableWithin.reachable {s : FS} (h : ReachableWithin s) : Reachable s := by
  obtain ⟨part, disk, s0, cs, h0, hrun⟩ := h
  exact ⟨part, disk, s0, cs, h0, hrun.mono fun _ _ _ hstep => hstep.2⟩

/-! ## What one call keeps -/

section Step

variable {s s' : FS}

/-- Reading changes nothing. -/
theorem inodeRead_state {mallocOk : Nat → Bool} {p count pos : Nat} {buf : Buf} {r : Int × Buf}
    (h : inodeRead mallocOk p buf count pos s = .ok (r, s')) : s' = s := by
  unfold inodeRead at h
  obtain ⟨i, t, hi, h2⟩ := Prog.bind_eq_ok.1 h
  obtain ⟨-, rfl⟩ := inodeAt_eq_ok.1 hi
  clear h
  dsimp only at h2
  generalize realCount i.i_size count pos = rc at h2
  by_cases hpast : i.i_size < u64 (pos + count) ∧ rc ≤ 0
  · rw [if_pos hpast] at h2
    exact (Prog.pure_eq_ok.1 h2).2.symm
  · rw [if_neg hpast] at h2
    generalize u64 (BLOCK_SIZE * _) = sz at h2
    by_cases hm : mallocOk sz = false
    · rw [if_pos hm] at h2
      exact (Prog.pure_eq_ok.1 h2).2.symm
    · rw [if_neg hm] at h2
      let t1 : FS := { t with live := t.live + 1 }
      rw [Prog.bind_of_ok (a := ()) (t := t1) rfl, Prog.bind_of_ok (run_getBlocksLba i t1)] at h2
      generalize divRoundUp64 _ _ = stop at h2
      rcases readLoop_congr (s := t1) (t := t1) (fun _ _ _ _ _ => rfl) stop
        (MAX_FILE_BLOCKS_CNT + 1 - pos / BLOCK_SIZE) (pos / BLOCK_SIZE) Buf.zero 0 with
        ⟨e, he, -⟩ | ⟨b, hb, -⟩
      · rw [Prog.bind_of_error he] at h2
        cases h2
      · rw [Prog.bind_of_ok hb] at h2
        obtain ⟨⟨⟩, t2, hreq, h3⟩ := Prog.bind_eq_ok.1 h2
        obtain ⟨-, rfl⟩ := Prog.require_eq_ok.1 hreq
        obtain ⟨⟨⟩, t3, hfree, h4⟩ := Prog.bind_eq_ok.1 h3
        rw [sysFree_eq_ok.1 hfree] at h4
        exact (Prog.pure_eq_ok.1 h4).2.symm

theorem InodeCall.Step.inv {c : InodeCall} (hinv : Inv s) (h : c.Step s s') : Inv s' := by
  obtain ⟨hallowed, hrun⟩ := h
  cases c with
  | alloc file_type =>
      obtain ⟨r, h⟩ := drop_eq_ok hrun
      exact inv_inodeAlloc hinv hallowed h
  | «open» no =>
      obtain ⟨p, h⟩ := drop_eq_ok hrun
      exact inv_inodeOpen hinv hallowed h
  | close p => exact inv_inodeClose hinv hrun
  | read mallocOk p buf count pos =>
      obtain ⟨r, h⟩ := drop_eq_ok hrun
      rw [inodeRead_state h]
      exact hinv
  | write p buf count pos =>
      obtain ⟨i, hp⟩ := hallowed
      obtain ⟨r, h⟩ := drop_eq_ok hrun
      exact (inodeWrite_cases hinv hp h).1
  | free p =>
      obtain ⟨hroot, i, hp, hcnt⟩ := hallowed
      exact inv_inodeFree hinv hp hroot hcnt hrun

/-! ## Coverage -/

/-- Copies that are new and empty, or that name what a copy with at least their size named before. -/
theorem covered_of_copies (hcov : Covered s)
    (h : ∀ no i, s'.Copy no i → i.i_size = 0 ∨
      ∃ j, s.Copy no j ∧ i.i_size ≤ j.i_size ∧ ∀ k, i.blocks s'.disk k = j.blocks s.disk k) :
    Covered s' := by
  intro no i hc k hk
  rcases h no i hc with h0 | ⟨j, hj, hsize, hblocks⟩
  · omega
  · rw [hblocks]
    exact hcov no j hj k (by omega)

theorem covered_openCount {p n : Nat} {i : Inode} (hinv : Inv s) (hcov : Covered s)
    (hp : s.inodes p = some i) : Covered (s.setObject p { i with i_open_cnts := n }) := by
  have hch := changesInode_openCount hp n
  have hdisk : (s.setObject p { i with i_open_cnts := n }).disk = s.disk := rfl
  have hrec : (s.setObject p { i with i_open_cnts := n }).record i.i_no = s.record i.i_no :=
    FS.record_congr hch.sb fun _ _ _ => rfl
  refine covered_of_copies hcov fun no j hc => Or.inr ?_
  rw [hdisk]
  by_cases hne : no = i.i_no
  · subst hne
    rcases hch.copy_self hinv.table hc with rfl | rfl
    · exact ⟨i, hinv.copy hp, Nat.le_refl _, fun _ => rfl⟩
    · rw [hrec]
      exact ⟨_, ⟨hinv.open_allocated p i hp, Or.inr rfl⟩, Nat.le_refl _, fun _ => rfl⟩
  · exact ⟨j, (hch.copy_other hne).1 hc, Nat.le_refl _, fun _ => rfl⟩

theorem covered_loadInode {no : Nat} (hinv : Inv s) (hcov : Covered s) (ha : s.allocated no) :
    Covered (s.loadInode no) := by
  have hdisk : (s.loadInode no).disk = s.disk := rfl
  have hinodes : (s.loadInode no).inodes = Function.update s.inodes s.next (some (s.opened no)) := rfl
  have hsb : (s.loadInode no).sb = s.sb := rfl
  have hbm : (s.loadInode no).inode_bitmap = s.inode_bitmap := rfl
  generalize s.loadInode no = s' at hdisk hinodes hsb hbm ⊢
  refine covered_of_copies hcov fun no' i hc => Or.inr ?_
  have ha' := (FS.allocated_congr hbm).1 hc.1
  rw [hdisk]
  rcases hc.2 with ⟨p, hp, hno⟩ | hi
  · rw [hinodes] at hp
    by_cases hpn : p = s.next
    · rw [hpn, Function.update_self] at hp
      have hi : i = s.opened no := (Option.some.inj hp).symm
      have hno' : no' = no := by
        rw [← hno, hi]
        exact hinv.recorded no ha
      have hsize : (s.opened no).i_size = (s.record no).i_size := rfl
      have hblocks : ∀ k, (s.opened no).blocks s.disk k = (s.record no).blocks s.disk k :=
        Inode.blocks_congr (fun _ _ => rfl) fun _ _ _ _ => rfl
      rw [hno', hi]
      exact ⟨s.record no, ⟨ha, Or.inr rfl⟩, Nat.le_of_eq hsize, hblocks⟩
    · rw [Function.update_of_ne hpn] at hp
      exact ⟨i, ⟨ha', Or.inl ⟨p, hp, hno⟩⟩, Nat.le_refl _, fun _ => rfl⟩
  · rw [FS.record_congr hsb (fun a _ _ => congrFun hdisk a)] at hi
    exact ⟨i, ⟨ha', Or.inr hi⟩, Nat.le_refl _, fun _ => rfl⟩

/-- Creating an inode leaves the copies of the others, and what they name, alone. -/
theorem copy_createInode {k file_type no : Nat} {btmp : Bitmap} {i : Inode} (hinv : Inv s)
    (h : bitmapAllocABit s.inode_bitmap = some (k, btmp)) (hne : no ≠ k)
    (hc : (s.createInode k file_type).Copy no i) :
    s.Copy no i ∧ ∀ j, i.blocks (s.createInode k file_type).disk j = i.blocks s.disk j := by
  obtain ⟨hk, -, -, -⟩ := bitmapAllocABit_eq_some h
  have hsize := inode_bitmap_size hinv.geometry
  have hinodes : (s.createInode k file_type).inodes
      = Function.update s.inodes s.next (some (newInode k file_type)) := rfl
  have hsb : (s.createInode k file_type).sb = s.sb := rfl
  have hc' : s.Copy no i := by
    refine ⟨((allocated_createInode hinv.geometry hk).1 hc.1).resolve_right hne, ?_⟩
    rcases hc.2 with ⟨p, hp, hno⟩ | hi
    · rw [hinodes] at hp
      by_cases hpn : p = s.next
      · rw [hpn, Function.update_self] at hp
        have hik : i.i_no = k := by rw [← Option.some.inj hp]; rfl
        exact absurd (hno.symm.trans hik) hne
      · rw [Function.update_of_ne hpn] at hp
        exact Or.inl ⟨p, hp, hno⟩
    · refine Or.inr (hi.trans (FS.record_congr hsb fun a h1 h2 => ?_))
      have hapart : s.recordAddr no + 160 ≤ s.recordAddr k ∨ s.recordAddr k + 160 ≤ s.recordAddr no :=
        FS.recordAddr_apart hne
      have hge : 512 * s.sb.inode_table_lba ≤ s.recordAddr no := Nat.le_add_right _ _
      exact createInode_disk hinv.geometry hk (by omega) (by omega)
  refine ⟨hc', Inode.blocks_congr (fun _ _ => rfl) fun h12 a h1 h2 => ?_⟩
  have habove := FS.used_above hinv.geometry (hinv.used_indirect hc' h12) (by omega : k < 4096)
  have hdata := (hinv.used_indirect hc' h12).1
  have hge := hinv.geometry.data_lba
  exact createInode_disk hinv.geometry hk (by omega) (by omega)

theorem covered_createInode {k file_type : Nat} {btmp : Bitmap} (hinv : Inv s) (hcov : Covered s)
    (h : bitmapAllocABit s.inode_bitmap = some (k, btmp)) (hft : file_type < 2 ^ 32) :
    Covered (s.createInode k file_type) := by
  obtain ⟨hk, hclear, -, -⟩ := bitmapAllocABit_eq_some h
  have hinv' := inv_createInode hinv h hft
  have hobj : (s.createInode k file_type).inodes s.next = some (newInode k file_type) := by
    show Function.update s.inodes s.next (some (newInode k file_type)) s.next = _
    exact Function.update_self _ _ _
  refine covered_of_copies hcov fun no i hc => ?_
  by_cases hne : no = k
  · left
    subst hne
    rcases hc.2 with ⟨p, hp, hno⟩ | hi
    · have hpn : p = s.next := hinv'.table.one_object _ _ _ _ hp hobj hno
      rw [hpn, hobj] at hp
      rw [← Option.some.inj hp]
      rfl
    · rw [hi]
      exact (hinv'.synced _ _ hobj).size
  · obtain ⟨hc', hblocks⟩ := copy_createInode hinv h hne hc
    exact Or.inr ⟨i, hc', Nat.le_refl _, hblocks⟩

theorem Inode.blocks_of_slot {disk disk' : Buf} {i j : Inode}
    (h : ∀ k, i.slot disk' k = j.slot disk k) (k : Nat) : i.blocks disk' k = j.blocks disk k := by
  by_cases hk : k < 140
  · rw [← Inode.slot_block hk, ← Inode.slot_block hk]
    exact h k
  · rw [Inode.blocks_beyond (by omega), Inode.blocks_beyond (by omega)]

theorem covered_inodeClose {p : Nat} (hinv : Inv s) (hcov : Covered s)
    (h : inodeClose p s = .ok ((), s')) : Covered s' := by
  by_cases hroot : p = s.root_dir_inode
  · rw [inodeClose_root hroot] at h
    cases h
    exact hcov
  · cases hp : s.inodes p with
    | none =>
        unfold inodeClose at h
        rw [Prog.bind_of_ok (a := s) (t := s) rfl, if_neg hroot] at h
        simp [hp] at h
    | some i =>
        by_cases hcnt : i.i_open_cnts = 1
        · rw [inodeClose_last hroot hp hcnt] at h
          cases h
          have hsub : ∀ no j, (s.dropInode p).Copy no j → s.Copy no j := fun no j hc =>
            @copy_drop s (s.dropInode p) p rfl rfl
              (fun _ => (FS.allocated_congr rfl).1) (fun _ _ _ _ _ => rfl) no j hc
          exact covered_of_copies hcov fun no j hc =>
            Or.inr ⟨j, hsub no j hc, Nat.le_refl _, fun _ => rfl⟩
        · rw [inodeClose_more hroot hp hcnt] at h
          cases h
          exact covered_openCount hinv hcov hp

/-- A write after which the object has a disk block for every file block below its size. -/
theorem covered_of_frame {p last : Nat} {i i' : Inode} (hinv : Inv s) (hcov : Covered s)
    (hp : s.inodes p = some i) (hinv' : Inv s') (hframe : WriteFrame s s' p i i')
    (hres : i'.i_size = i.i_size ∨ WriteDone s s' i i' last)
    (hnew : ∀ k, i.i_size ≤ 512 * k → 512 * k < i'.i_size → i'.blocks s'.disk k ≠ 0) : Covered s' := by
  have hch := hframe.changes
  -- the changed object first: its record agrees with it in size and below the indirect block
  have hself : ∀ k, 512 * k < i'.i_size → i'.blocks s'.disk k ≠ 0 := by
    intro k hk
    by_cases hlt : 512 * k < i.i_size
    · have hne := hcov _ i (hinv.copy hp) k hlt
      rw [hframe.kept_block hne]
      exact hne
    · exact hnew k (Nat.le_of_not_lt hlt) hk
  intro no j hc k hk
  by_cases hne : no = i.i_no
  · subst hne
    rcases hch.copy_self hinv.table hc with rfl | hj
    · exact hself k hk
    · have hsync := hinv'.synced p i' hch.object'
      rw [hch.no, ← hj] at hsync
      have hk' : 512 * k < i'.i_size := by rwa [← hsync.size]
      have hsize' := hinv'.size_le hch.object'
      by_cases hk12 : k < 12
      · rw [Inode.blocks_direct hk12, hsync.direct k hk12, ← @Inode.blocks_direct s'.disk _ _ hk12]
        exact hself k hk'
      · have hsec : j.i_sectors 12 = i'.i_sectors 12 := by
          obtain hsame | hdone := hres
          · rcases hsync.indirect with h12 | h12
            · exact h12
            · -- the record had an indirect block before, and has one still
              exfalso
              have ha := hinv.open_allocated p i hp
              have hold := (hinv.synced p i hp).size
              have h12' := hcov _ (s.record i.i_no) ⟨ha, Or.inr rfl⟩ 12 (by omega)
              refine hframe.recorded (fun h0 => h12' ?_) (by rw [← hj, h12])
              exact Inode.blocks_no_indirect h0 (Nat.le_refl _)
          · rw [hj]
            exact hdone.record_indirect
        have hall : ∀ m ≤ 12, j.i_sectors m = i'.i_sectors m := by
          intro m hm
          by_cases hm12 : m < 12
          · exact hsync.direct m hm12
          · rw [show m = 12 by omega]
            exact hsec
        rw [Inode.blocks_congr hall fun _ _ _ _ => rfl]
        exact hself k hk'
  · have hc' := (hch.copy_other hne).1 hc
    rw [hch.blocks_other hc' hne]
    exact hcov _ j hc' k hk

/-- A write that starts inside the file or at its end leaves no file block below the size without a
    disk block. -/
theorem covered_inodeWrite {p count pos : Nat} {buf : Buf} {i : Inode} {r : Int} (hinv : Inv s)
    (hcov : Covered s) (hp : s.inodes p = some i) (hpos : pos ≤ i.i_size)
    (hfit : pos + count ≤ 71680) (h : inodeWrite p buf count pos s = .ok (r, s')) : Covered s' := by
  obtain ⟨hinv', i', hframe, hres⟩ := inodeWrite_cases hinv hp h
  have hu : u64 (pos + count) = pos + count := u64_of_lt (by omega)
  refine covered_of_frame hinv hcov hp hinv' hframe (hres.imp (fun hfail => hfail.2.1) fun hdone => hdone.2.2)
    fun k hge hk => ?_
  rcases inodeWrite_run buf hinv hp hfit with
    ⟨-, t, j, hrun, hj, hfilled, -⟩ | ⟨-, t, stop, hrun, -⟩
  · rw [hrun] at h
    cases h
    rw [hframe.changes.object'] at hj
    cases hj
    rcases hres with ⟨-, hsize, -⟩ | ⟨-, -, hdone⟩
    · omega
    · have hsize := hdone.size
      rw [hu] at hsize
      exact (hfilled k (by omega) (by omega)).1
  · rw [hrun] at h
    cases h
    rcases hres with ⟨-, hsize, -⟩ | ⟨hr, -, -⟩
    · omega
    · have hs64 : s64 count = count := s64_of_lt (by omega)
      rw [hs64] at hr
      omega

/-- A write whose end, as a `size_t`, is inside the file. -/
theorem covered_inodeWrite_wrapped {p count pos : Nat} {buf : Buf} {i : Inode} {r : Int} (hinv : Inv s)
    (hcov : Covered s) (hp : s.inodes p = some i) (hlast : u64 (pos + count) ≤ i.i_size)
    (h : inodeWrite p buf count pos s = .ok (r, s')) : Covered s' := by
  obtain ⟨hinv', i', hframe, hres⟩ := inodeWrite_cases hinv hp h
  refine covered_of_frame hinv hcov hp hinv' hframe (hres.imp (fun hfail => hfail.2.1) fun hdone => hdone.2.2)
    fun k hge hk => ?_
  rcases hres with ⟨-, hsize, -⟩ | ⟨-, -, hdone⟩
  · omega
  · have hsize := hdone.size
    omega

theorem InodeCall.StepWithin.covered {c : InodeCall} (hinv : Inv s) (hcov : Covered s)
    (h : c.StepWithin s s') : Covered s' := by
  obtain ⟨hwithin, hallowed, hrun⟩ := h
  cases c with
  | alloc file_type =>
      obtain ⟨r, h⟩ := drop_eq_ok hrun
      cases hb : bitmapAllocABit s.inode_bitmap with
      | none =>
          rw [inodeAlloc_none hb] at h
          cases h
          exact hcov
      | some res =>
          obtain ⟨k, btmp⟩ := res
          rw [inodeAlloc_some hinv.geometry hb] at h
          cases h
          exact covered_createInode hinv hcov hb hallowed
  | «open» no =>
      obtain ⟨p, h⟩ := drop_eq_ok hrun
      rcases inodeOpen_cases hallowed with ⟨q, i, hq, -, hopen⟩ | ⟨-, hopen⟩
      · rw [hopen] at h
        cases h
        exact covered_openCount hinv hcov hq
      · rw [hopen] at h
        cases h
        exact covered_loadInode hinv hcov hallowed
  | close p => exact covered_inodeClose hinv hcov hrun
  | read mallocOk p buf count pos =>
      obtain ⟨r, h⟩ := drop_eq_ok hrun
      rw [inodeRead_state h]
      exact hcov
  | write p buf count pos =>
      obtain ⟨i, hp⟩ := hallowed
      obtain ⟨r, h⟩ := drop_eq_ok hrun
      obtain ⟨hpos, hfit⟩ := hwithin i hp
      exact covered_inodeWrite hinv hcov hp hpos hfit h
  | free p =>
      obtain ⟨hroot, i, hp, hcnt⟩ := hallowed
      obtain ⟨t, hfree, -, -, -, -, -, hcopies⟩ := inodeFree_run hinv hp hroot hcnt
      have hrun' : inodeFree p s = .ok ((), s') := hrun
      rw [hfree] at hrun'
      cases hrun'
      exact covered_of_copies hcov fun no j hc => Or.inr
        ⟨j, (hcopies no j hc).1, Nat.le_refl _, Inode.blocks_of_slot (hcopies no j hc).2⟩

end Step

/-! ## What every sequence keeps -/

theorem Reachable.inv {s : FS} (h : Reachable s) : Inv s := by
  obtain ⟨part, disk, s0, cs, h0, hrun⟩ := h
  exact hrun.invariant (fun _ _ _ hinv hstep => hstep.inv hinv) (inv_filesysInit h0).1

theorem ReachableWithin.covered {s : FS} (h : ReachableWithin s) : Covered s := by
  obtain ⟨part, disk, s0, cs, h0, hrun⟩ := h
  have hboth : Inv s ∧ Covered s := by
    refine hrun.invariant (I := fun s => Inv s ∧ Covered s) ?_ (inv_filesysInit h0)
    exact fun _ _ _ hI hstep => ⟨hstep.2.inv hI.1, hstep.covered hI.1 hI.2⟩
  exact hboth.2

/-- After one more call. -/
theorem Reachable.step {s s' : FS} {c : InodeCall} (h : Reachable s) (hstep : c.Step s s') :
    Reachable s' := by
  obtain ⟨part, disk, s0, cs, h0, hrun⟩ := h
  exact ⟨part, disk, s0, _, h0, .snoc hrun hstep⟩

theorem ReachableWithin.step {s s' : FS} {c : InodeCall} (h : ReachableWithin s)
    (hstep : c.StepWithin s s') : ReachableWithin s' := by
  obtain ⟨part, disk, s0, cs, h0, hrun⟩ := h
  exact ⟨part, disk, s0, _, h0, .snoc hrun hstep⟩

end RecoverOS
