import RecoverOS.Fs.Path

set_option autoImplicit false

/-! # Files do not shrink

Whatever the directories hold, nothing that a path or a descriptor leads to makes an open file smaller or
puts another inode at an address that was handed out before. -/

namespace RecoverOS

/-- An object of `t` was allocated after `s`, or it was there and is no smaller. -/
structure Grows (s t : FS) : Prop where
  next : s.next ≤ t.next
  objects : ∀ p j, t.inodes p = some j → s.next ≤ p ∨ ∃ i, s.inodes p = some i ∧ i.i_size ≤ j.i_size

/-- The objects are the same. -/
structure Quiet (s t : FS) : Prop where
  next : t.next = s.next
  inodes : t.inodes = s.inodes

namespace Grows

variable {s t u : FS} {p : Nat} {i : Inode}

theorem trans (h : Grows s t) (h' : Grows t u) : Grows s u where
  next := Nat.le_trans h.next h'.next
  objects := fun p j hp => by
    obtain hnew | ⟨i, hi, hle⟩ := h'.objects p j hp
    · exact .inl (Nat.le_trans h.next hnew)
    · obtain hnew | ⟨i', hi', hle'⟩ := h.objects p i hi
      · exact .inl hnew
      · exact .inr ⟨i', hi', Nat.le_trans hle' hle⟩

theorem of_quiet (h : Quiet s t) : Grows s t where
  next := Nat.le_of_eq h.next.symm
  objects := fun p j hp => .inr ⟨j, by rw [← h.inodes, hp], Nat.le_refl _⟩

/-- One object changed, at an address that is new or held a smaller one. -/
theorem set (hnext : s.next ≤ t.next) (hinodes : t.inodes = Function.update s.inodes p (some i))
    (hp : s.next ≤ p ∨ ∃ j, s.inodes p = some j ∧ j.i_size ≤ i.i_size) : Grows s t where
  next := hnext
  objects := fun q j hq => by
    rw [hinodes] at hq
    by_cases hqp : q = p
    · rw [hqp, Function.update_self] at hq
      cases hq
      exact hqp ▸ hp
    · rw [Function.update_of_ne hqp] at hq
      exact .inr ⟨j, hq, Nat.le_refl _⟩

/-- One object was dropped. -/
theorem drop (hnext : t.next = s.next) (hinodes : t.inodes = Function.update s.inodes p none) :
    Grows s t where
  next := Nat.le_of_eq hnext.symm
  objects := fun q j hq => by
    rw [hinodes] at hq
    by_cases hqp : q = p
    · rw [hqp, Function.update_self] at hq
      cases hq
    · rw [Function.update_of_ne hqp] at hq
      exact .inr ⟨j, hq, Nat.le_refl _⟩

end Grows

instance : IsPreorder FS Quiet where
  refl _ := ⟨rfl, rfl⟩
  trans _ _ _ h h' := ⟨h'.next.trans h.next, h'.inodes.trans h.inodes⟩

instance : IsPreorder FS Grows where
  refl _ := .of_quiet ⟨rfl, rfl⟩
  trans _ _ _ h h' := h.trans h'

/-! ## The inode layer -/

section Inodes

open Prog (Extends)

theorem ideRead_quiet (lba : Nat) (buf : Buf) (off n : Nat) : (ideRead lba buf off n).Extends Quiet :=
  .bind .assert fun _ => .gets _

theorem ideWrite_quiet (lba : Nat) (buf : Buf) (n : Nat) : (ideWrite lba buf n).Extends Quiet :=
  .bind .assert fun _ => .modify fun _ => ⟨rfl, rfl⟩

theorem sysMalloc_quiet : sysMalloc.Extends Quiet := .modify fun _ => ⟨rfl, rfl⟩

theorem sysFree_quiet : sysFree.Extends Quiet := .modify fun _ => ⟨rfl, rfl⟩

theorem inodeAt_quiet (p : Nat) : (inodeAt p).Extends Quiet := .bind .get fun _ => .ofOption _

theorem inodeLocate_quiet (no : Nat) : (inodeLocate no).Extends Quiet :=
  .bind .assert fun _ => .bind (.gets _) fun _ => .pure _

theorem getBlocksLba_quiet (i : Inode) : (getBlocksLba i).Extends Quiet := .bind .get fun _ => .pure _

theorem inodeSync_quiet (p : Nat) : (inodeSync p).Extends Quiet :=
  .bind (inodeAt_quiet p) fun _ => .bind (inodeLocate_quiet _) fun _ =>
    .bind sysMalloc_quiet fun _ => .bind (ideRead_quiet _ _ _ _) fun _ =>
    .bind (ideWrite_quiet _ _ _) fun _ => sysFree_quiet

theorem blockBitmapAlloc_quiet : blockBitmapAlloc.Extends Quiet := by
  refine .bind .get fun s => ?_
  cases bitmapAllocABit s.block_bitmap with
  | none => exact .pure _
  | some r =>
      exact .bind (.modify fun _ => ⟨rfl, rfl⟩) fun _ => .bind (ideWrite_quiet _ _ _) fun _ => .pure _

theorem blockBitmapFree_quiet (b : Nat) : (blockBitmapFree b).Extends Quiet :=
  .bind .get fun _ => .bind .require fun _ => .bind (.modify fun _ => ⟨rfl, rfl⟩) fun _ =>
    .bind (ideWrite_quiet _ _ _) fun _ => ideWrite_quiet _ _ _

theorem ensureBlock_quiet (all : Nat → Nat) (idx : Nat) : (ensureBlock all idx).Extends Quiet := by
  unfold ensureBlock
  refine .ite (.bind blockBitmapAlloc_quiet fun b => ?_) (.pure _)
  dsimp only
  exact .ite (.pure _) (.pure _)

theorem writeLoop_quiet (w : WriteArgs) (n idx : Nat) (all : Nat → Nat) (buf : Buf) :
    (writeLoop w n idx all buf).Extends Quiet := by
  induction n generalizing idx all buf with
  | zero => exact .fault _
  | succ n ih =>
      unfold writeLoop
      refine .ite (.pure _) (.bind .require fun _ => .bind (ensureBlock_quiet all idx) fun o => ?_)
      cases o with
      | none => exact .pure _
      | some all =>
          refine .ite ?_ (.ite ?_ ?_)
          · exact .bind (ideRead_quiet _ _ _ _) fun _ => .bind .require fun _ =>
              .bind (ideWrite_quiet _ _ _) fun _ => .ite (.pure _) (ih _ _ _)
          · exact .bind (ideRead_quiet _ _ _ _) fun _ => .bind (ideWrite_quiet _ _ _) fun _ => .pure _
          · exact .bind (ideWrite_quiet _ _ _) fun _ => ih _ _ _

theorem freeLoop_quiet (all : Nat → Nat) (n idx : Nat) : (freeLoop all n idx).Extends Quiet := by
  induction n generalizing idx with
  | zero => exact .pure _
  | succ n ih =>
      unfold freeLoop
      exact .ite (.bind (blockBitmapFree_quiet _) fun _ => ih _) (.bind (.pure _) fun _ => ih _)

theorem inodeRead_quiet (mallocOk : Nat → Bool) (p : Nat) (buf : Buf) (count pos : Nat) :
    (inodeRead mallocOk p buf count pos).Extends Quiet := by
  have hloop : ∀ all stop n idx b off, (readLoop all stop n idx b off).Extends Quiet := by
    intro all stop n
    induction n with
    | zero => exact fun _ _ _ => .fault _
    | succ n ih =>
        intro idx b off
        unfold readLoop
        exact .ite (.pure _) (.bind .require fun _ =>
          .ite (.bind (ideRead_quiet _ _ _ _) fun _ => ih _ _ _) (.bind (.pure _) fun _ => ih _ _ _))
  exact .bind (inodeAt_quiet p) fun i => .ite (.pure _) (.ite (.pure _) (.bind sysMalloc_quiet fun _ =>
    .bind (getBlocksLba_quiet i) fun _ => .bind (hloop _ _ _ _ _ _) fun _ => .bind .require fun _ =>
    .bind sysFree_quiet fun _ => .pure _))

theorem setInode_grows {s t : FS} {p : Nat} {i j : Inode} {u : Unit} (h : setInode p i s = .ok (u, t))
    (hp : s.inodes p = some j) (hle : j.i_size ≤ i.i_size) : Grows s t := by
  rw [setInode_eq_ok.1 h]
  exact .set (Nat.le_refl _) rfl (.inr ⟨j, hp, hle⟩)

theorem inodeOpen_grows (no : Nat) : (inodeOpen no).Extends Grows := by
  intro s q t h
  unfold inodeOpen at h
  rw [Prog.bind_of_ok (a := s.findInode no) (t := s) rfl] at h
  cases hfind : s.findInode no with
  | some p =>
      rw [hfind] at h
      obtain ⟨i, s1, hat, h1⟩ := Prog.bind_eq_ok.1 h
      obtain ⟨hp, rfl⟩ := inodeAt_eq_ok.1 hat
      obtain ⟨⟨⟩, s2, hset, h2⟩ := Prog.bind_eq_ok.1 h1
      obtain ⟨-, rfl⟩ := Prog.pure_eq_ok.1 h2
      exact setInode_grows hset hp (Nat.le_refl _)
  | none =>
      rw [hfind] at h
      obtain ⟨pos, s1, hloc, h1⟩ := Prog.bind_eq_ok.1 h
      obtain ⟨p, s2, halloc, h2⟩ := Prog.bind_eq_ok.1 h1
      obtain ⟨rfl, rfl⟩ := kernelAlloc_eq_ok.1 halloc
      have hloc : Quiet s s1 := inodeLocate_quiet no s pos s1 hloc
      obtain ⟨⟨⟩, s3, hmalloc, h3⟩ := Prog.bind_eq_ok.1 h2
      rw [sysMalloc_eq_ok.1 hmalloc] at h3
      obtain ⟨buf, s4, hread, h4⟩ := Prog.bind_eq_ok.1 h3
      obtain ⟨-, -, rfl⟩ := ideRead_eq_ok.1 hread
      obtain ⟨⟨⟩, s5, hfree, h5⟩ := Prog.bind_eq_ok.1 h4
      rw [sysFree_eq_ok.1 hfree] at h5
      obtain ⟨⟨⟩, s6, hset, h6⟩ := Prog.bind_eq_ok.1 h5
      rw [setInode_eq_ok.1 hset] at h6
      obtain ⟨⟨⟩, s7, hlist, h7⟩ := Prog.bind_eq_ok.1 h6
      rw [Prog.modify_eq_ok.1 hlist] at h7
      obtain ⟨-, rfl⟩ := Prog.pure_eq_ok.1 h7
      refine .trans (.of_quiet hloc) (.set ?_ rfl (.inl (Nat.le_refl _)))
      exact Nat.le_succ _

theorem inodeClose_grows (p : Nat) : (inodeClose p).Extends Grows := by
  intro s u t h
  unfold inodeClose at h
  rw [Prog.bind_of_ok (a := s) (t := s) rfl] at h
  split at h
  · obtain ⟨-, rfl⟩ := Prog.pure_eq_ok.1 h
    exact refl_of Grows _
  · obtain ⟨i, s1, hat, h1⟩ := Prog.bind_eq_ok.1 h
    obtain ⟨hp, rfl⟩ := inodeAt_eq_ok.1 hat
    split at h1
    · rw [Prog.modify_eq_ok.1 h1]
      exact .drop rfl rfl
    · exact setInode_grows h1 hp (Nat.le_refl _)

theorem allocIndirect_grows (p last : Nat) : (allocIndirect p last).Extends Grows := by
  intro s r t h
  unfold allocIndirect at h
  obtain ⟨i, s1, hat, h1⟩ := Prog.bind_eq_ok.1 h
  obtain ⟨hp, rfl⟩ := inodeAt_eq_ok.1 hat
  split at h1
  · obtain ⟨b, s2, halloc, h2⟩ := Prog.bind_eq_ok.1 h1
    have hb := blockBitmapAlloc_quiet _ _ _ halloc
    split at h2
    · obtain ⟨-, rfl⟩ := Prog.pure_eq_ok.1 h2
      exact .of_quiet hb
    · obtain ⟨⟨⟩, s3, hwrite, h3⟩ := Prog.bind_eq_ok.1 h2
      have hw := ideWrite_quiet _ _ _ _ _ _ hwrite
      obtain ⟨⟨⟩, s4, hset, h4⟩ := Prog.bind_eq_ok.1 h3
      obtain ⟨-, rfl⟩ := Prog.pure_eq_ok.1 h4
      have hp3 : s3.inodes p = some i := by rw [hw.inodes, hb.inodes, hp]
      exact (Grows.of_quiet hb).trans ((Grows.of_quiet hw).trans
        (setInode_grows hset hp3 (Nat.le_refl _)))
  · obtain ⟨-, rfl⟩ := Prog.pure_eq_ok.1 h1
    exact refl_of Grows _

theorem writeBack_grows (p : Nat) (all : Nat → Nat) (last : Nat) : (writeBack p all last).Extends Grows := by
  intro s u t h
  unfold writeBack at h
  obtain ⟨i, s1, hat, h1⟩ := Prog.bind_eq_ok.1 h
  obtain ⟨hp, rfl⟩ := inodeAt_eq_ok.1 hat
  obtain ⟨⟨⟩, s2, hset, h2⟩ := Prog.bind_eq_ok.1 h1
  have hle : i.i_size ≤ if last > i.i_size then last else i.i_size := by split <;> omega
  have hrest : (do
      inodeSync p
      if (if 12 < NDIRECT then all 12 else i.i_sectors 12) ≠ 0 then
        ideWrite (if 12 < NDIRECT then all 12 else i.i_sectors 12)
          (Buf.ofWords fun k => all (NDIRECT + k)) 1
      else pure () : Prog FS Unit).Extends Quiet :=
    .bind (inodeSync_quiet p) fun _ => .ite (ideWrite_quiet _ _ _) (.pure _)
  exact (setInode_grows hset hp hle).trans (.of_quiet (hrest _ _ _ h2))

theorem inodeWrite_grows (p : Nat) (buf : Buf) (count pos : Nat) :
    (inodeWrite p buf count pos).Extends Grows := by
  unfold inodeWrite
  dsimp only
  refine .ite (.pure _) (.bind (sysMalloc_quiet.mono fun _ _ => .of_quiet) fun _ =>
    .bind (allocIndirect_grows p _) fun b => .ite (.pure _) ?_)
  refine .bind ((inodeAt_quiet p).mono fun _ _ => .of_quiet) fun i =>
    .bind ((getBlocksLba_quiet i).mono fun _ _ => .of_quiet) fun all =>
    .bind ((writeLoop_quiet _ _ _ _ _).mono fun _ _ => .of_quiet) fun written => ?_
  cases written with
  | none => exact .pure _
  | some all =>
      exact .bind (writeBack_grows p all _) fun _ =>
        .bind (sysFree_quiet.mono fun _ _ => .of_quiet) fun _ => .pure _

theorem inodeAlloc_grows (file_type : Nat) : (inodeAlloc file_type).Extends Grows := by
  intro s r t h
  unfold inodeAlloc at h
  rw [Prog.bind_of_ok (a := s) (t := s) rfl] at h
  cases hb : bitmapAllocABit s.inode_bitmap with
  | none =>
      rw [hb] at h
      obtain ⟨-, rfl⟩ := Prog.pure_eq_ok.1 h
      exact refl_of Grows _
  | some res =>
      rw [hb] at h
      obtain ⟨⟨⟩, s1, hmod, h1⟩ := Prog.bind_eq_ok.1 h
      rw [Prog.modify_eq_ok.1 hmod] at h1
      obtain ⟨⟨⟩, s2, hwrite, h2⟩ := Prog.bind_eq_ok.1 h1
      have hw : Quiet s s2 := by
        obtain ⟨-, rfl⟩ := ideWrite_eq_ok.1 hwrite
        exact ⟨rfl, rfl⟩
      obtain ⟨p, s3, halloc, h3⟩ := Prog.bind_eq_ok.1 h2
      obtain ⟨rfl, rfl⟩ := kernelAlloc_eq_ok.1 halloc
      obtain ⟨⟨⟩, s4, hset, h4⟩ := Prog.bind_eq_ok.1 h3
      rw [setInode_eq_ok.1 hset] at h4
      obtain ⟨⟨⟩, s5, hlist, h5⟩ := Prog.bind_eq_ok.1 h4
      rw [Prog.modify_eq_ok.1 hlist] at h5
      obtain ⟨⟨⟩, s6, hsync, h6⟩ := Prog.bind_eq_ok.1 h5
      obtain ⟨-, rfl⟩ := Prog.pure_eq_ok.1 h6
      refine .trans (.of_quiet hw) (.trans (.set ?_ rfl (.inl (Nat.le_refl _)))
        (.of_quiet (inodeSync_quiet _ _ _ _ hsync)))
      exact Nat.le_succ _

theorem inodeFree_grows (p : Nat) : (inodeFree p).Extends Grows :=
  .bind ((inodeAt_quiet p).mono fun _ _ => .of_quiet) fun i => .bind .get fun _ => .bind .require fun _ =>
    .bind (.modify fun _ => .of_quiet ⟨rfl, rfl⟩) fun _ =>
    .bind ((getBlocksLba_quiet i).mono fun _ _ => .of_quiet) fun _ =>
    .bind ((freeLoop_quiet _ _ _).mono fun _ _ => .of_quiet) fun _ => .bind .assert fun _ =>
    inodeClose_grows p

end Inodes

/-! ## Directories and paths -/

section Paths

open Prog (Extends)

theorem inodeAt_grows (p : Nat) : (inodeAt p).Extends Grows := (inodeAt_quiet p).mono fun _ _ => .of_quiet

theorem inodeRead_grows (mallocOk : Nat → Bool) (p : Nat) (buf : Buf) (count pos : Nat) :
    (inodeRead mallocOk p buf count pos).Extends Grows :=
  (inodeRead_quiet mallocOk p buf count pos).mono fun _ _ => .of_quiet

theorem dirLookUp_grows (p : Nat) (name : List Byte) : (dirLookUp p name).Extends Grows := by
  have hloop : ∀ n off de, (lookUpLoop p name n off de).Extends Grows := by
    intro n
    induction n with
    | zero => exact fun _ _ => .fault _
    | succ n ih =>
        intro off de
        unfold lookUpLoop
        exact .bind (inodeAt_grows p) fun _ => .ite (.pure _) (.bind (inodeRead_grows _ _ _ _ _) fun _ =>
          .ite (.fault _) (.ite (.bind (inodeOpen_grows _) fun _ => .pure _) (ih _ _)))
  exact .bind (inodeAt_grows p) fun _ => .bind .assert fun _ => hloop _ _ _

theorem dirLink_grows (p : Nat) (dir_e : DirEntry) : (dirLink p dir_e).Extends Grows := by
  have hloop : ∀ n off de, (linkLoop p dir_e n off de).Extends Grows := by
    intro n
    induction n with
    | zero => exact fun _ _ => .fault _
    | succ n ih =>
        intro off de
        unfold linkLoop
        exact .bind (inodeAt_grows p) fun _ =>
          .ite (.bind (inodeWrite_grows _ _ _ _) fun _ => .pure _)
            (.bind (inodeRead_grows _ _ _ _ _) fun _ => .ite (.fault _)
              (.ite (.bind (inodeWrite_grows _ _ _ _) fun _ => .pure _) (ih _ _)))
  refine .bind (dirLookUp_grows p _) fun found => ?_
  cases found with
  | none => exact hloop _ _ _
  | some r => exact .bind (inodeClose_grows _) fun _ => .pure _

theorem dirUnlink_grows (p : Nat) (name : List Byte) : (dirUnlink p name).Extends Grows := by
  refine .bind (dirLookUp_grows p _) fun found => ?_
  cases found with
  | none => exact .pure _
  | some r => exact .bind (inodeClose_grows _) fun _ => .bind (inodeWrite_grows _ _ _ _) fun _ => .pure _

theorem searchLoop_grows (n p : Nat) (path : List Byte) : (searchLoop n p path).Extends Grows := by
  induction n generalizing p path with
  | zero => exact .fault _
  | succ n ih =>
      unfold searchLoop
      refine .bind .require fun _ => ?_
      cases (pathParse path).2 with
      | none => exact .pure _
      | some rest =>
          refine .bind (dirLookUp_grows p _) fun found => ?_
          cases found with
          | none => exact .bind (inodeClose_grows _) fun _ => .pure _
          | some r =>
              exact .bind (inodeAt_grows _) fun _ =>
                .ite (.bind (inodeClose_grows _) fun _ => .bind (inodeClose_grows _) fun _ => .pure _)
                  (.bind (inodeClose_grows _) fun _ => ih _ _)

theorem searchFile_grows (cwd : Nat) (path : List Byte) (is_parent : Bool) :
    (searchFile cwd path is_parent).Extends Grows := by
  refine .bind (inodeOpen_grows _) fun p => .bind (searchLoop_grows _ p path) fun r => ?_
  cases r with
  | none => exact .pure _
  | some r =>
      refine .ite (.pure _) (.bind (dirLookUp_grows _ _) fun found => ?_)
      cases found with
      | none => exact .bind (inodeClose_grows _) fun _ => .pure _
      | some c => exact .bind (inodeClose_grows _) fun _ => .pure _

theorem createFileOrDirectory_grows (cwd : Nat) (path : List Byte) (file_type : Nat) :
    (createFileOrDirectory cwd path file_type).Extends Grows := by
  refine .bind (inodeAlloc_grows _) fun created => ?_
  cases created with
  | none => exact .pure _
  | some p =>
      refine .bind (inodeAt_grows _) fun i => .bind .require fun _ =>
        .bind (searchFile_grows _ _ _) fun parent => ?_
      cases parent with
      | none => exact .bind (inodeFree_grows _) fun _ => .pure _
      | some d =>
          exact .bind (dirLink_grows _ _) fun _ =>
            .ite (.bind (inodeFree_grows _) fun _ => .bind (inodeClose_grows _) fun _ => .pure _) (.pure _)

theorem deleteLookUp_grows (cwd : Nat) (path : List Byte) : (deleteLookUp cwd path).Extends Grows := by
  refine .bind (searchFile_grows _ _ _) fun parent => ?_
  cases parent with
  | none => exact .pure _
  | some d =>
      refine .bind (dirLookUp_grows _ _) fun found => ?_
      cases found with
      | none => exact .bind (inodeClose_grows _) fun _ => .pure _
      | some r => exact .pure _

theorem deleteFound_grows (mapped : Bool) (path : List Byte) (d p : Nat) :
    (deleteFound mapped path d p).Extends Grows :=
  .bind (inodeFree_grows _) fun _ => .bind .require fun _ => .bind (dirUnlink_grows _ _) fun _ => .assert

end Paths

end RecoverOS
