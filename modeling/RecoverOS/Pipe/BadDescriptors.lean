import RecoverOS.Fs.Sequential
import RecoverOS.Pipe.Calls

set_option autoImplicit false

/-! # System calls on any descriptor

When `sys_read`, `sys_write`, `sys_close` and `sys_lseek` stay clear of their panics, of the ends of the two
tables and of a `NULL` `fd_inode`, for every descriptor number and every state of the tables. -/

namespace RecoverOS

/-! ## The inode layer does not panic -/

section NoPanic

/-- The object at `p`, if there is one, has a number that `inode_locate` accepts. -/
def NumberOk (p : Nat) (s : FS) : Prop := ∀ i, s.inodes p = some i → i.i_no < MAX_FILES_PER_PART

variable {p : Nat} {I : FS → Prop}

/-- `I` is not about the disk, the block bitmap or the number of heap blocks. -/
structure Insensitive (I : FS → Prop) : Prop where
  disk : ∀ s d, I s → I { s with disk := d }
  block_bitmap : ∀ s b, I s → I { s with block_bitmap := b }
  live : ∀ s n, I s → I { s with live := n }

theorem insensitive_true : Insensitive fun _ => True :=
  ⟨fun _ _ _ => trivial, fun _ _ _ => trivial, fun _ _ _ => trivial⟩

theorem insensitive_numberOk : Insensitive (NumberOk p) :=
  ⟨fun _ _ h => h, fun _ _ h => h, fun _ _ h => h⟩

theorem ideRead_safe (lba off : Nat) (buf : Buf) {n : Nat} (hn : 0 < n) :
    (ideRead lba buf off n).Safe I (fun _ => I) :=
  .of_ok _ id (fun s _ => run_ideRead lba off buf hn s) fun _ hs => hs

theorem ideWrite_safe (hI : Insensitive I) (lba : Nat) (buf : Buf) {n : Nat} (hn : 0 < n) :
    (ideWrite lba buf n).Safe I (fun _ => I) :=
  .of_ok (fun _ => ()) _ (fun s _ => run_ideWrite lba buf hn s) fun s hs => hI.disk s _ hs

theorem sysMalloc_safe (hI : Insensitive I) : sysMalloc.Safe I (fun _ => I) :=
  .modify fun s hs => hI.live s _ hs

theorem sysFree_safe (hI : Insensitive I) : sysFree.Safe I (fun _ => I) :=
  .modify fun s hs => hI.live s _ hs

theorem inodeAt_safe : (inodeAt p).Safe I (fun i s => s.inodes p = some i ∧ I s) :=
  .bind .get fun t s hs => by
    obtain ⟨rfl, hI⟩ := hs
    cases ho : t.inodes p with
    | none => exact ⟨nofun, nofun⟩
    | some i => exact ⟨nofun, fun _ _ h => by cases h; exact ⟨ho, hI⟩⟩

theorem getBlocksLba_safe (i : Inode) : (getBlocksLba i).Safe I (fun _ => I) :=
  .of_ok _ id (fun s _ => run_getBlocksLba i s) fun _ hs => hs

theorem readLoop_safe (all : Nat → Nat) (stop n idx : Nat) (buf : Buf) (off : Nat) :
    (readLoop all stop n idx buf off).Safe I (fun _ => I) := by
  induction n generalizing idx buf off with
  | zero => exact .undefined
  | succ n ih =>
      unfold readLoop
      refine .ite (fun _ => .pure fun _ hs => hs) fun _ => .bind .require fun _ => ?_
      refine .ite (fun _ => ?_) fun _ => ?_
      · refine .bind (Q := fun _ => I) ?_ fun b => ih _ _ _
        exact (ideRead_safe _ _ _ Nat.one_pos).mono (fun _ hs => hs.2) fun _ _ hs => hs
      · exact .bind (Q := fun _ => I) (.pure fun _ hs => hs.2) fun b => ih _ _ _

theorem inodeRead_safe (hI : Insensitive I) (mallocOk : Nat → Bool) (buf : Buf) (count pos : Nat) :
    (inodeRead mallocOk p buf count pos).Safe I (fun _ => I) := by
  unfold inodeRead
  refine .bind inodeAt_safe fun i => .ite (fun _ => .pure fun _ hs => hs.2) fun _ => ?_
  refine .ite (fun _ => .pure fun _ hs => hs.2) fun _ => ?_
  refine .bind ((sysMalloc_safe hI).mono (fun _ hs => hs.2) fun _ _ hs => hs) fun _ => ?_
  refine .bind (getBlocksLba_safe i) fun all => .bind (readLoop_safe all _ _ _ _ _) fun b => ?_
  refine .bind .require fun _ => .bind ((sysFree_safe hI).mono (fun _ hs => hs.2) fun _ _ hs => hs) fun _ => ?_
  exact .pure fun _ hs => hs

theorem blockBitmapAlloc_safe (hI : Insensitive I) : blockBitmapAlloc.Safe I (fun _ => I) := by
  refine .bind .get fun t => ?_
  cases bitmapAllocABit t.block_bitmap with
  | none => exact .pure fun _ hs => hs.2
  | some r =>
      refine .bind (.modify fun s hs => hI.block_bitmap s _ hs.2) fun _ => ?_
      exact .bind (ideWrite_safe hI _ _ Nat.one_pos) fun _ => .pure fun _ hs => hs

theorem ensureBlock_safe (hI : Insensitive I) (all : Nat → Nat) (idx : Nat) :
    (ensureBlock all idx).Safe I (fun _ => I) := by
  unfold ensureBlock
  refine .ite (fun _ => .bind (blockBitmapAlloc_safe hI) fun b => ?_) fun _ => .pure fun _ hs => hs
  exact .ite (fun _ => .pure fun _ hs => hs) fun _ => .pure fun _ hs => hs

theorem writeLoop_safe (hI : Insensitive I) (w : WriteArgs) (n idx : Nat) (all : Nat → Nat) (buf : Buf) :
    (writeLoop w n idx all buf).Safe I (fun _ => I) := by
  induction n generalizing idx all buf with
  | zero => exact .undefined
  | succ n ih =>
      unfold writeLoop
      refine .ite (fun _ => .pure fun _ hs => hs) fun _ => .bind .require fun _ => ?_
      refine .bind ((ensureBlock_safe hI all idx).mono (fun _ hs => hs.2) fun _ _ hs => hs) fun o => ?_
      cases o with
      | none => exact .pure fun _ hs => hs
      | some all =>
          refine .ite (fun _ => ?_) fun _ => .ite (fun _ => ?_) fun _ => ?_
          · refine .bind (ideRead_safe _ _ _ Nat.one_pos) fun b => .bind .require fun _ => ?_
            refine .bind ((ideWrite_safe hI _ _ Nat.one_pos).mono (fun _ hs => hs.2) fun _ _ hs => hs)
              fun _ => ?_
            exact .ite (fun _ => .pure fun _ hs => hs) fun _ => ih _ _ _
          · refine .bind (ideRead_safe _ _ _ Nat.one_pos) fun b => ?_
            exact .bind (ideWrite_safe hI _ _ Nat.one_pos) fun _ => .pure fun _ hs => hs
          · exact .bind (ideWrite_safe hI _ _ Nat.one_pos) fun _ => ih _ _ _

theorem setInode_safe {i : Inode} (hno : i.i_no < MAX_FILES_PER_PART) :
    (setInode p i).Safe I (fun _ => NumberOk p) := by
  refine .modify fun s _ j hj => ?_
  have hj' : Function.update s.inodes p (some i) p = some j := hj
  rw [Function.update_self] at hj'
  cases hj'
  exact hno

theorem allocIndirect_safe (last : Nat) :
    (allocIndirect p last).Safe (NumberOk p) (fun _ => NumberOk p) := by
  unfold allocIndirect
  refine .bind inodeAt_safe fun i => .ite (fun _ => ?_) fun _ => .pure fun _ hs => hs.2
  intro s hs
  have hno : i.i_no < MAX_FILES_PER_PART := hs.2 i hs.1
  refine Prog.Safe.bind (blockBitmapAlloc_safe insensitive_numberOk) (fun b => ?_) s hs.2
  refine .ite (fun _ => .pure fun _ hs => hs) fun _ => ?_
  exact .bind (ideWrite_safe insensitive_numberOk _ _ Nat.one_pos) fun _ =>
    .bind (setInode_safe hno) fun _ => .pure fun _ hs => hs

/-- The only assertion on the way of `inode_write` is the one of `inode_locate`. -/
theorem inodeSync_safe : (inodeSync p).Safe (NumberOk p) (fun _ => NumberOk p) := by
  unfold inodeSync
  refine .bind inodeAt_safe fun i s hs => ?_
  have hno : i.i_no < MAX_FILES_PER_PART := hs.2 i hs.1
  refine Prog.Safe.bind (Q := fun _ => NumberOk p) ?_ (fun pos => ?_) s hs.2
  · unfold inodeLocate
    refine .bind (.assert fun _ _ => hno) fun _ => ?_
    exact .of_ok _ id (fun _ _ => rfl) fun _ hs => hs
  · refine .bind (sysMalloc_safe insensitive_numberOk) fun _ => .bind (ideRead_safe _ _ _ Nat.two_pos) fun b => ?_
    exact .bind (ideWrite_safe insensitive_numberOk _ _ Nat.two_pos) fun _ =>
      sysFree_safe insensitive_numberOk

theorem writeBack_safe (all : Nat → Nat) (last : Nat) :
    (writeBack p all last).Safe (NumberOk p) (fun _ => NumberOk p) := by
  unfold writeBack
  refine .bind inodeAt_safe fun i s hs => ?_
  refine Prog.Safe.bind (setInode_safe (by exact hs.2 i hs.1)) (fun _ => ?_) s hs.2
  refine .bind inodeSync_safe fun _ => .ite (fun _ => ?_) fun _ => .pure fun _ hs => hs
  exact ideWrite_safe insensitive_numberOk _ _ Nat.one_pos

theorem writeBlocks_safe (buf : Buf) (count pos : Nat) :
    (Tables.writeBlocks p buf count pos).Safe (NumberOk p) (fun _ => NumberOk p) := by
  have hI : Insensitive (NumberOk p) := insensitive_numberOk
  unfold Tables.writeBlocks
  refine .bind (sysMalloc_safe hI) fun _ => ?_
  refine .bind (allocIndirect_safe _) fun ok => .ite (fun _ => .pure fun _ hs => hs) fun _ => ?_
  refine .bind (inodeAt_safe.mono (R := fun _ => NumberOk p) (fun _ hs => hs) fun _ _ hs => hs.2) fun i => ?_
  exact .bind (getBlocksLba_safe i) fun all => writeLoop_safe hI _ _ _ _ _

theorem inodeClose_safe : (inodeClose p).Safe (fun _ => True) (fun _ _ => True) := by
  unfold inodeClose
  refine .bind .get fun t => .ite (fun _ => .pure fun _ _ => trivial) fun _ => .bind inodeAt_safe fun i => ?_
  exact .ite (fun _ => .modify fun _ _ => trivial) fun _ => .modify fun _ _ => trivial

end NoPanic

/-! ## Calls that return -/

/-- The computation does not stop with a fault. -/
def Prog.Returns {σ α : Type} (m : Prog σ α) (s : σ) : Prop := ∃ r, m s = .ok r

section Returns

variable {σ α β : Type} {m : Prog σ α} {f : α → Prog σ β} {s t : σ} {a : α}

theorem Prog.returns_pure : (pure a : Prog σ α).Returns s := ⟨(a, s), rfl⟩

theorem Prog.not_returns_fault {e : Fault} : ¬ (Prog.fault e : Prog σ α).Returns s := nofun

theorem Prog.returns_bind_of_ok (h : m s = .ok (a, t)) : (m >>= f).Returns s ↔ (f a).Returns t := by
  unfold Prog.Returns
  rw [Prog.bind_of_ok h]

theorem Prog.returns_bind : (m >>= f).Returns s ↔ ∃ a t, m s = .ok (a, t) ∧ (f a).Returns t := by
  constructor
  · rintro ⟨⟨b, u⟩, h⟩
    obtain ⟨a, t, hm, hf⟩ := Prog.bind_eq_ok.1 h
    exact ⟨a, t, hm, _, hf⟩
  · rintro ⟨a, t, hm, hf⟩
    exact (Prog.returns_bind_of_ok hm).2 hf

theorem Prog.returns_ite {c : Prop} [Decidable c] {m' : Prog σ α} (hm : m.Returns s)
    (hm' : m'.Returns s) : (if c then m else m').Returns s := by
  by_cases hc : c
  · rw [if_pos hc]
    exact hm
  · rw [if_neg hc]
    exact hm'

/-- What follows always returns, so it does not matter. -/
theorem Prog.returns_bind_total (hf : ∀ a t, (f a).Returns t) : (m >>= f).Returns s ↔ m.Returns s := by
  rw [Prog.returns_bind]
  exact ⟨fun ⟨a, t, h, _⟩ => ⟨_, h⟩, fun ⟨r, h⟩ => ⟨r.1, r.2, h, hf _ _⟩⟩

theorem Prog.returns_assert_bind {c : Prop} [Decidable c] {k : Unit → Prog σ β} :
    (Prog.assert c >>= k).Returns s ↔ c ∧ (k ()).Returns s := by
  rw [Prog.returns_bind]
  constructor
  · rintro ⟨⟨⟩, t, hassert, hk⟩
    obtain ⟨hc, rfl⟩ := Prog.assert_eq_ok.1 hassert
    exact ⟨hc, hk⟩
  · rintro ⟨hc, hk⟩
    exact ⟨(), s, Prog.run_assert hc s, hk⟩

end Returns

namespace Tables

open Kernel (MAX_FILES_OPEN MAX_FILES_OPEN_PER_PROC Writable Whence)

variable {P : Type}

/-- The slot is marked as a pipe. -/
def Piped (s : Tables P) (g : Nat) : Prop := (s.file_table g).flag = PIPE_FLAG

/-- `fd_inode` of the slot points to the page of a pipe. -/
def QueueAt (s : Tables P) (g : Nat) : Prop :=
  ∃ page ioq, (s.file_table g).fd_inode = some page ∧ s.pages page = some ioq

/-- `fd_inode` of the slot points to an inode. -/
def InodeAt (s : Tables P) (g : Nat) : Prop :=
  ∃ inode i, (s.file_table g).fd_inode = some inode ∧ s.fs.inodes inode = some i

section Steps

variable {s t : Tables P} {p : P} {n g : Nat} {β : Type}

theorem returns_fdLocal2Global_bind {k : Nat → Prog (Tables P) β} :
    (fdLocal2Global p n >>= k).Returns s ↔ ∃ g, s.Slot p n g ∧ (k g).Returns s := by
  rw [Prog.returns_bind]
  constructor
  · rintro ⟨g, t, h, hk⟩
    obtain ⟨hslot, rfl⟩ := fdLocal2Global_eq_ok.1 h
    exact ⟨g, hslot, hk⟩
  · rintro ⟨g, hslot, hk⟩
    exact ⟨g, s, hslot.run, hk⟩

theorem returns_isPipe_bind {k : Bool → Prog (Tables P) β} : (isPipe p n >>= k).Returns s ↔
    ∃ g, s.Slot p n g ∧ (k ((s.file_table g).flag == PIPE_FLAG)).Returns s := by
  rw [Prog.returns_bind]
  constructor
  · rintro ⟨b, t, h, hk⟩
    obtain ⟨g, hslot, rfl, rfl⟩ := isPipe_eq_ok.1 h
    exact ⟨g, hslot, hk⟩
  · rintro ⟨g, hslot, hk⟩
    exact ⟨_, s, hslot.isPipe, hk⟩

theorem returns_fdQueue_bind {k : Nat × Ioqueue P → Prog (Tables P) β} : (fdQueue g >>= k).Returns s ↔
    ∃ page ioq, (s.file_table g).fd_inode = some page ∧ s.pages page = some ioq ∧
      (k (page, ioq)).Returns s := by
  rw [Prog.returns_bind]
  constructor
  · rintro ⟨⟨page, ioq⟩, t, h, hk⟩
    obtain ⟨s', _, hget, h1⟩ := Prog.bind_eq_ok.1 h
    obtain ⟨rfl, rfl⟩ := Prog.get_eq_ok.1 hget
    obtain ⟨page', s1, hptr, h2⟩ := Prog.bind_eq_ok.1 h1
    obtain ⟨hpage, rfl⟩ := Prog.ofOption_eq_ok.1 hptr
    obtain ⟨ioq', s2, hread, h3⟩ := Prog.bind_eq_ok.1 h2
    obtain ⟨hioq, rfl⟩ := Prog.ofOption_eq_ok.1 hread
    cases h3
    exact ⟨page, ioq, hpage, hioq, hk⟩
  · rintro ⟨page, ioq, hpage, hioq, hk⟩
    refine ⟨(page, ioq), s, ?_, hk⟩
    unfold fdQueue
    rw [Prog.bind_of_ok (a := s) (t := s) rfl, Prog.bind_of_ok (Prog.ofOption_eq_ok.2 ⟨hpage, rfl⟩),
      Prog.bind_of_ok (Prog.ofOption_eq_ok.2 ⟨hioq, rfl⟩)]
    rfl

theorem returns_fdInode_bind {k : Nat → Prog (Tables P) β} : (fdInode g >>= k).Returns s ↔
    ∃ inode i, (s.file_table g).fd_inode = some inode ∧ s.fs.inodes inode = some i ∧
      (k inode).Returns s := by
  rw [Prog.returns_bind]
  constructor
  · rintro ⟨inode, t, h, hk⟩
    obtain ⟨s', _, hget, h1⟩ := Prog.bind_eq_ok.1 h
    obtain ⟨rfl, rfl⟩ := Prog.get_eq_ok.1 hget
    obtain ⟨inode', s1, hptr, h2⟩ := Prog.bind_eq_ok.1 h1
    obtain ⟨hinode, rfl⟩ := Prog.ofOption_eq_ok.1 hptr
    obtain ⟨⟨⟩, s2, hreq, h3⟩ := Prog.bind_eq_ok.1 h2
    obtain ⟨hsome, rfl⟩ := Prog.require_eq_ok.1 hreq
    cases h3
    obtain ⟨i, hi⟩ := Option.isSome_iff_exists.1 hsome
    exact ⟨inode, i, hinode, hi, hk⟩
  · rintro ⟨inode, i, hinode, hi, hk⟩
    refine ⟨inode, s, ?_, hk⟩
    unfold fdInode
    rw [Prog.bind_of_ok (a := s) (t := s) rfl, Prog.bind_of_ok (Prog.ofOption_eq_ok.2 ⟨hinode, rfl⟩),
      Prog.run_require_bind (Option.isSome_iff_exists.2 ⟨i, hi⟩)]
    rfl

/-- The system call goes on exactly when the call of the inode layer does not panic. -/
theorem returns_onFs_bind {α : Type} {m : Prog FS α} {k : Outcome α → Prog (Tables P) β}
    (hk : ∀ o t, (k o).Returns t) : (onFs m >>= k).Returns s ↔ m s.fs ≠ .error .panic := by
  rw [Prog.returns_bind_total hk]
  unfold Prog.Returns onFs
  cases h : m s.fs with
  | ok r => exact iff_of_true ⟨_, rfl⟩ nofun
  | error e =>
      cases e with
      | panic => exact iff_of_false nofun fun hne => hne rfl
      | undefined => exact iff_of_true ⟨_, rfl⟩ nofun

end Steps

/-! ## The buffers of the inode layer -/

/-- With room on the heap these are the calls of the inode layer. -/
theorem inodeReadHeap_all (inode : Nat) (buf : Buf) (count pos : Nat) (s : FS) :
    inodeReadHeap .all inode buf count pos s = inodeRead (fun _ => true) inode buf count pos s := by
  unfold inodeReadHeap
  cases hi : s.inodes inode with
  | none =>
      have hat : inodeAt inode s = .error .undefined := by
        unfold inodeAt
        rw [Prog.bind_of_ok (a := s) (t := s) rfl, hi]
        rfl
      unfold inodeRead
      rw [Prog.bind_of_error hat, Prog.bind_of_error hat]
  | some i =>
      rw [Prog.bind_of_ok (run_inodeAt hi), Prog.run_assert_bind (.inr nofun)]
      rfl

theorem inodeWriteHeap_all (inode : Nat) (buf : Buf) (count pos : Nat) (s : FS) :
    inodeWriteHeap .all inode buf count pos s = inodeWrite inode buf count pos s := by
  unfold inodeWriteHeap inodeWrite
  dsimp only
  by_cases hlast : u64 (pos + count) > MAX_FILE_SIZE
  · rw [if_pos hlast, if_pos hlast]
  rw [if_neg hlast, if_neg hlast, Prog.run_assert_bind nofun, if_neg nofun]
  unfold writeBlocks
  rw [Prog.bind_assoc]
  refine Prog.bind_congr (fun _ t => ?_) s
  rw [Prog.bind_assoc]
  refine Prog.bind_congr (fun indirectOk t => ?_) t
  by_cases hok : indirectOk = false
  · rw [if_pos hok, if_pos hok]
    rfl
  rw [if_neg hok, if_neg hok, Prog.bind_assoc]
  refine Prog.bind_congr (fun i t => ?_) t
  rw [Prog.bind_assoc]
  refine Prog.bind_congr (fun all_blocks t => ?_) t
  refine Prog.bind_congr (fun written t => ?_) t
  cases written with
  | none => rfl
  | some all_blocks => exact Prog.run_assert_bind rfl _ t
/-- There is an inode, and unless it has nothing to read, `sys_malloc` does not panic over its read buffer. -/
def ReadMemory (heap : Requests) (s : FS) (inode count pos : Nat) : Prop :=
  ∃ i, s.inodes inode = some i ∧
    (AtEnd i.i_size count pos ∨ heap.answer 0 (readRequest i.i_size count pos) ≠ .panic)

/-- There is an inode, and unless the file would be too long, `sys_malloc` has the buffer of `inode_write` and,
    unless the disk has no block left for the write, the one of `inode_sync`. -/
def WriteMemory (heap : Requests) (s : FS) (inode : Nat) (buf : Buf) (count pos : Nat) : Prop :=
  s.inodes inode ≠ none ∧ (MAX_FILE_SIZE < u64 (pos + count) ∨
    heap.answer 0 (BLOCK_SIZE * 2) = .block ∧ (heap.answer 1 (SECTOR_SIZE * 2) = .block ∨
      ∀ all t, writeBlocks inode buf count pos s ≠ .ok (some all, t)))

section Buffers

variable {heap : Requests} {s : FS} {inode count pos : Nat} {i : Inode} {buf : Buf}

/-- A request for at most 1024 bytes that does not panic gets its block. -/
theorem Requests.block_of_ne_panic {k size : Nat} (hsize : size ≤ 1024) (h : heap.answer k size ≠ .panic) :
    heap.answer k size = .block := by
  have hnull := heap.small k size hsize
  cases hans : heap.answer k size with
  | block => rfl
  | null => exact absurd hans hnull
  | panic => exact absurd hans h

theorem inodeReadHeap_safe_iff (hi : s.inodes inode = some i) :
    inodeReadHeap heap inode buf count pos s ≠ .error .panic ↔ ReadMemory heap s inode count pos := by
  unfold inodeReadHeap
  rw [Prog.bind_of_ok (run_inodeAt hi)]
  by_cases hmem : AtEnd i.i_size count pos ∨ heap.answer 0 (readRequest i.i_size count pos) ≠ .panic
  · rw [Prog.run_assert_bind hmem]
    exact iff_of_true (inodeRead_safe insensitive_true _ _ _ _ _ trivial).1 ⟨i, hi, hmem⟩
  · rw [Prog.run_assert_bind_not hmem]
    refine iff_of_false (fun h => h rfl) ?_
    rintro ⟨j, hj, hmem'⟩
    rw [hi] at hj
    cases hj
    exact hmem hmem'

theorem inodeWriteHeap_safe_iff (hi : s.inodes inode = some i) (hno : NumberOk inode s) :
    inodeWriteHeap heap inode buf count pos s ≠ .error .panic ↔ WriteMemory heap s inode buf count pos := by
  have hsome : s.inodes inode ≠ none := by
    rw [hi]
    nofun
  unfold inodeWriteHeap WriteMemory
  by_cases hlast : u64 (pos + count) > MAX_FILE_SIZE
  · rw [if_pos hlast]
    exact iff_of_true nofun ⟨hsome, .inl hlast⟩
  rw [if_neg hlast]
  by_cases hbuf : heap.answer 0 (BLOCK_SIZE * 2) = .panic
  · rw [Prog.run_assert_bind_not (not_not_intro hbuf)]
    refine iff_of_false (fun h => h rfl) ?_
    rintro ⟨-, hlong | ⟨hblock, -⟩⟩
    · exact hlast hlong
    · rw [hbuf] at hblock
      cases hblock
  have hsmall : BLOCK_SIZE * 2 ≤ 1024 := Nat.le_refl 1024
  have hblock := Requests.block_of_ne_panic hsmall hbuf
  rw [Prog.run_assert_bind hbuf, if_neg (heap.small 0 _ hsmall)]
  obtain ⟨hsafe, hkeeps⟩ := writeBlocks_safe (p := inode) buf count pos s hno
  cases hrun : writeBlocks inode buf count pos s with
  | error e =>
      rw [Prog.bind_of_error hrun]
      rw [hrun] at hsafe
      exact iff_of_true (fun h => hsafe (congrArg _ (Except.error.inj h))) ⟨hsome, .inr ⟨hblock, .inr nofun⟩⟩
  | ok r =>
      obtain ⟨written, t⟩ := r
      rw [Prog.bind_of_ok hrun]
      cases written with
      | none => exact iff_of_true nofun ⟨hsome, .inr ⟨hblock, .inr fun all t h => by cases h⟩⟩
      | some all =>
          by_cases hsync : heap.answer 1 (SECTOR_SIZE * 2) = .block
          · dsimp only
            rw [Prog.run_assert_bind hsync]
            refine iff_of_true ?_ ⟨hsome, .inr ⟨hblock, .inl hsync⟩⟩
            refine (Prog.Safe.bind (T := fun _ _ => True) (writeBack_safe all _) (fun _ => ?_) t (hkeeps _ _ hrun)).1
            exact .bind (sysFree_safe insensitive_numberOk) fun _ => .pure fun _ _ => trivial
          · dsimp only
            rw [Prog.run_assert_bind_not hsync]
            refine iff_of_false (fun h => h rfl) ?_
            rintro ⟨-, hlong | ⟨-, hsync' | hnone⟩⟩
            · exact hlast hlong
            · exact hsync hsync'
            · exact hnone all t rfl

end Buffers

/-! ## The four calls -/

/-- A system call on a descriptor with its arguments; `buf` is `none` for `NULL`. -/
inductive FdCall where
  | read (heap : Requests) (fd : Int) (buf : Option Buf) (count : Nat)
  | write (heap : Requests) (fd : Int) (buf : Buf) (count : Nat)
  | close (fd : Int)
  | lseek (fd offset : Int) (whence : Whence)

namespace FdCall

/-- The descriptor. -/
def fd : FdCall → Int
  | read _ fd _ _ => fd
  | write _ fd _ _ => fd
  | close fd => fd
  | lseek fd _ _ => fd

variable [DecidableEq P]

/-- The call, and the value it returns. -/
def run (p : P) : FdCall → Prog (Tables P) (Outcome Int)
  | read heap fd buf count => do
      let r ← sysRead p heap fd buf count
      match r with
      | .returned r => pure (.returned r.1)
      | .asleep => pure .asleep
      | .overrun => pure .overrun
  | write heap fd buf count => sysWrite p heap fd buf count
  | close fd => sysClose p fd
  | lseek fd offset whence => sysLseek p fd offset whence

end FdCall

/-- `fd` is a descriptor that the process has. -/
def IsOpen (s : Tables P) (p : P) (fd : Int) : Prop :=
  0 ≤ fd ∧ fd < MAX_FILES_OPEN_PER_PROC ∧ s.fd_table p fd.toNat ≠ none

/-- The call stops with no fault, and with a descriptor that is not open it returns -1 and changes
    nothing. -/
def Survives [DecidableEq P] (s : Tables P) (p : P) (c : FdCall) : Prop :=
  (c.run p).Returns s ∧ (¬ s.IsOpen p c.fd → c.run p s = .ok (.returned (-1), s))

/-- What the call needs of the descriptor, of the slot it leads to and of the other arguments. -/
def Usable (s : Tables P) (p : P) : FdCall → Prop
  | .read heap fd buf count => buf ≠ none ∧ 0 ≤ fd ∧ fd ≠ stdout_no ∧ fd ≠ stderr_no ∧
      ∃ g, s.Slot p fd.toNat g ∧ (s.Piped g → s.QueueAt g) ∧
        (¬ s.Piped g → fd ≠ stdin_no → ∃ inode, (s.file_table g).fd_inode = some inode ∧
          ReadMemory heap s.fs inode count (s.file_table g).fd_pos)
  | .write heap fd buf count => fd < 0 ∨
      ∃ g, s.Slot p fd.toNat g ∧ (s.Piped g → s.QueueAt g) ∧
        (¬ s.Piped g → fd = stdout_no → heap.answer 0 (u64 (count + 1)) = .block) ∧
        (¬ s.Piped g → fd ≠ stdout_no → Writable (s.file_table g) →
          ∃ inode, (s.file_table g).fd_inode = some inode ∧
            WriteMemory heap s.fs inode buf count (s.file_table g).fd_pos)
  | .close fd => 2 < fd ∧
      ∃ g, s.Slot p fd.toNat g ∧
        (s.Piped g → sub64 (s.file_table g).fd_pos 1 = 0 → (s.file_table g).fd_inode ≠ none) ∧
        (¬ s.Piped g → s.InodeAt g)
  | .lseek fd _ _ => fd < 0 ∨ MAX_FILES_OPEN < fd ∨
      ∃ g, s.Slot p fd.toNat g ∧ (s.QueueAt g ∨ s.InodeAt g)

section Calls

variable {s : Tables P} {p : P} {g n count : Nat} {fd : Int} {buf : Buf} {heap : Requests}

theorem pipeRead_returns (h : s.Slot p n g) : (pipeRead p n buf count).Returns s ↔ s.QueueAt g := by
  unfold pipeRead
  rw [Prog.returns_bind_of_ok h.run, returns_fdQueue_bind]
  constructor
  · rintro ⟨page, ioq, hpage, hioq, -⟩
    exact ⟨page, ioq, hpage, hioq⟩
  · rintro ⟨page, ioq, hpage, hioq⟩
    refine ⟨page, ioq, hpage, hioq, ?_⟩
    dsimp only
    cases ioq.pipeRead count with
    | none => exact Prog.returns_pure
    | some r => exact ⟨_, rfl⟩

theorem pipeWrite_returns (h : s.Slot p n g) : (pipeWrite p n buf count).Returns s ↔ s.QueueAt g := by
  unfold pipeWrite
  rw [Prog.returns_bind_of_ok h.run, returns_fdQueue_bind]
  constructor
  · rintro ⟨page, ioq, hpage, hioq, -⟩
    exact ⟨page, ioq, hpage, hioq⟩
  · rintro ⟨page, ioq, hpage, hioq⟩
    refine ⟨page, ioq, hpage, hioq, ?_⟩
    dsimp only
    cases ioq.pipeWrite buf count with
    | none => exact Prog.returns_pure
    | some r => exact ⟨_, rfl⟩

theorem stdinRead_returns : (stdinRead buf count : Prog (Tables P) _).Returns s := by
  unfold stdinRead
  rw [Prog.returns_bind_of_ok (a := s) (t := s) rfl]
  cases Ioqueue.readLoop count s.kbd_buf with
  | none => exact Prog.returns_pure
  | some r => exact ⟨_, rfl⟩

theorem sysRead_returns : (sysRead p heap fd (some buf) count).Returns s ↔
    s.Usable p (.read heap fd (some buf) count) := by
  unfold sysRead Usable
  by_cases hstd : fd < 0 ∨ fd = stdout_no ∨ fd = stderr_no
  · dsimp only
    rw [if_pos hstd]
    refine iff_of_false Prog.not_returns_fault ?_
    rintro ⟨-, h0, h1, h2, -⟩
    rcases hstd with h | h | h
    · omega
    · exact h1 h
    · exact h2 h
  · dsimp only
    rw [if_neg hstd, returns_isPipe_bind]
    rw [not_or, not_or, not_lt] at hstd
    obtain ⟨h0, h1, h2⟩ := hstd
    refine Iff.trans (exists_congr fun g => and_congr_right fun hslot => ?_)
      ⟨fun h => ⟨nofun, h0, h1, h2, h⟩, fun h => h.2.2.2.2⟩
    by_cases hp : s.Piped g
    · rw [if_pos (beq_iff_eq.2 hp), pipeRead_returns hslot]
      exact ⟨fun h => ⟨fun _ => h, fun hn => absurd hp hn⟩, fun h => h.1 hp⟩
    · rw [if_neg fun h => hp (beq_iff_eq.1 h)]
      by_cases hin : fd = stdin_no
      · rw [if_pos hin]
        exact iff_of_true stdinRead_returns ⟨fun h => absurd h hp, fun _ h => absurd hin h⟩
      · rw [if_neg hin, Prog.returns_bind_of_ok hslot.run, Prog.returns_bind_of_ok (a := s) (t := s) rfl,
          returns_fdInode_bind]
        constructor
        · rintro ⟨inode, i, hinode, hi, h⟩
          rw [returns_onFs_bind fun o t => by cases o <;> exact ⟨_, rfl⟩, inodeReadHeap_safe_iff hi] at h
          exact ⟨fun h => absurd h hp, fun _ _ => ⟨inode, hinode, h⟩⟩
        · rintro ⟨-, h⟩
          obtain ⟨inode, hinode, i, hi, hmem⟩ := h hp hin
          refine ⟨inode, i, hinode, hi, ?_⟩
          rw [returns_onFs_bind fun o t => by cases o <;> exact ⟨_, rfl⟩, inodeReadHeap_safe_iff hi]
          exact ⟨i, hi, hmem⟩

theorem sysWrite_returns (hinv : Inv s.fs) : (sysWrite p heap fd buf count).Returns s ↔
    s.Usable p (.write heap fd buf count) := by
  unfold sysWrite Usable
  by_cases hneg : fd < 0
  · rw [if_pos hneg]
    exact iff_of_true Prog.returns_pure (.inl hneg)
  · rw [if_neg hneg, returns_isPipe_bind]
    refine Iff.trans (exists_congr fun g => and_congr_right fun hslot => ?_) (or_iff_right hneg).symm
    by_cases hp : s.Piped g
    · rw [if_pos (beq_iff_eq.2 hp), pipeWrite_returns hslot]
      exact ⟨fun h => ⟨fun _ => h, fun hn => absurd hp hn, fun hn => absurd hp hn⟩, fun h => h.1 hp⟩
    · rw [if_neg fun h => hp (beq_iff_eq.1 h)]
      by_cases hout : fd = stdout_no
      · rw [if_pos hout, Prog.returns_assert_bind]
        refine ⟨fun h => ⟨fun h' => absurd h' hp, fun _ _ => h.1, fun _ h' => absurd hout h'⟩, fun h => ?_⟩
        exact ⟨h.2.1 hp hout, _, rfl⟩
      · rw [if_neg hout, Prog.returns_bind_of_ok hslot.run, Prog.returns_bind_of_ok (a := s) (t := s) rfl]
        by_cases hw : Writable (s.file_table g)
        · rw [if_pos hw, returns_fdInode_bind]
          constructor
          · rintro ⟨inode, i, hinode, hi, h⟩
            rw [returns_onFs_bind fun o t => by cases o <;> exact ⟨_, rfl⟩,
              inodeWriteHeap_safe_iff hi fun j hj => hinv.no_lt hj] at h
            exact ⟨fun h => absurd h hp, fun _ h => absurd h hout, fun _ _ _ => ⟨inode, hinode, h⟩⟩
          · rintro ⟨-, -, h⟩
            obtain ⟨inode, hinode, hmem⟩ := h hp hout hw
            obtain ⟨i, hi⟩ := Option.ne_none_iff_exists'.1 hmem.1
            refine ⟨inode, i, hinode, hi, ?_⟩
            rw [returns_onFs_bind fun o t => by cases o <;> exact ⟨_, rfl⟩,
              inodeWriteHeap_safe_iff hi fun j hj => hinv.no_lt hj]
            exact hmem
        · rw [if_neg hw]
          exact iff_of_true Prog.returns_pure
            ⟨fun h => absurd h hp, fun _ h => absurd h hout, fun _ _ h => absurd h hw⟩

theorem returns_inodeSize_bind {β : Type} {k : Nat → Prog (Tables P) β} (hk : ∀ n t, (k n).Returns t) :
    (inodeSize g >>= k).Returns s ↔ s.QueueAt g ∨ s.InodeAt g := by
  unfold inodeSize
  constructor
  · rintro ⟨r, h⟩
    obtain ⟨n, t, h1, -⟩ := Prog.bind_eq_ok.1 h
    obtain ⟨s', _, hget, h2⟩ := Prog.bind_eq_ok.1 h1
    obtain ⟨rfl, rfl⟩ := Prog.get_eq_ok.1 hget
    obtain ⟨inode, s1, hptr, h3⟩ := Prog.bind_eq_ok.1 h2
    obtain ⟨hinode, rfl⟩ := Prog.ofOption_eq_ok.1 hptr
    cases hi : s.fs.inodes inode with
    | some i => exact .inr ⟨inode, i, hinode, hi⟩
    | none =>
        rw [hi] at h3
        obtain ⟨⟨⟩, s2, hreq, -⟩ := Prog.bind_eq_ok.1 h3
        obtain ⟨hsome, rfl⟩ := Prog.require_eq_ok.1 hreq
        obtain ⟨ioq, hioq⟩ := Option.isSome_iff_exists.1 hsome
        exact .inl ⟨inode, ioq, hinode, hioq⟩
  · intro h
    have hptr : ∃ inode, (s.file_table g).fd_inode = some inode ∧
        ((s.pages inode).isSome = true ∨ ∃ i, s.fs.inodes inode = some i) := by
      rcases h with ⟨page, ioq, hpage, hioq⟩ | ⟨inode, i, hinode, hi⟩
      · exact ⟨page, hpage, .inl (Option.isSome_iff_exists.2 ⟨ioq, hioq⟩)⟩
      · exact ⟨inode, hinode, .inr ⟨i, hi⟩⟩
    obtain ⟨inode, hinode, hlive⟩ := hptr
    refine Prog.returns_bind.2 ?_
    cases hi : s.fs.inodes inode with
    | some i =>
        refine ⟨i.i_size, s, ?_, hk _ _⟩
        rw [Prog.bind_of_ok (a := s) (t := s) rfl, Prog.bind_of_ok (Prog.ofOption_eq_ok.2 ⟨hinode, rfl⟩), hi]
        rfl
    | none =>
        have hsome : (s.pages inode).isSome = true := by
          rcases hlive with h | ⟨i, h⟩
          · exact h
          · rw [hi] at h
            cases h
        refine ⟨s.page_size inode, s, ?_, hk _ _⟩
        rw [Prog.bind_of_ok (a := s) (t := s) rfl, Prog.bind_of_ok (Prog.ofOption_eq_ok.2 ⟨hinode, rfl⟩), hi]
        exact Prog.run_require_bind hsome _ _

theorem sysLseek_returns {offset : Int} {whence : Whence} : (sysLseek p fd offset whence).Returns s ↔
    s.Usable p (.lseek fd offset whence) := by
  unfold sysLseek Usable
  by_cases hout : fd < 0 ∨ fd > MAX_FILES_OPEN
  · rw [if_pos hout]
    exact iff_of_true Prog.returns_pure (hout.imp_right .inl)
  · rw [if_neg hout, returns_fdLocal2Global_bind]
    rw [not_or] at hout
    refine Iff.trans (exists_congr fun g => and_congr_right fun hslot => ?_)
      ((or_iff_right hout.1).trans (or_iff_right hout.2)).symm
    rw [Prog.returns_bind_of_ok (a := s) (t := s) rfl]
    refine returns_inodeSize_bind fun n t => ?_
    exact Prog.returns_ite Prog.returns_pure ⟨_, rfl⟩

theorem releasePipe_returns : (releasePipe g).Returns s ↔
    (sub64 (s.file_table g).fd_pos 1 = 0 → (s.file_table g).fd_inode ≠ none) := by
  unfold releasePipe
  rw [Prog.returns_bind_of_ok (a := s) (t := s) rfl]
  dsimp only
  rw [Prog.returns_bind_of_ok (a := ()) rfl]
  by_cases h0 : sub64 (s.file_table g).fd_pos 1 = 0
  · rw [if_pos h0]
    cases hinode : (s.file_table g).fd_inode with
    | none => exact iff_of_false nofun fun h => h h0 rfl
    | some page => exact iff_of_true ⟨_, rfl⟩ fun _ => nofun
  · rw [if_neg h0]
    exact iff_of_true Prog.returns_pure fun h => absurd h h0

theorem fileClose_returns : (fileClose g).Returns s ↔ s.InodeAt g := by
  unfold fileClose
  rw [returns_fdInode_bind]
  constructor
  · rintro ⟨inode, i, hinode, hi, -⟩
    exact ⟨inode, i, hinode, hi⟩
  · rintro ⟨inode, i, hinode, hi⟩
    exact ⟨inode, i, hinode, hi, (returns_onFs_bind fun o t => ⟨_, rfl⟩).2 (inodeClose_safe _ trivial).1⟩

theorem sysClose_returns [DecidableEq P] : (sysClose p fd).Returns s ↔ s.Usable p (.close fd) := by
  unfold sysClose Usable
  rw [Prog.returns_assert_bind, returns_fdLocal2Global_bind]
  refine and_congr_right fun _ => exists_congr fun g => and_congr_right fun hslot => ?_
  rw [Prog.returns_bind_of_ok hslot.isPipe]
  by_cases hp : s.Piped g
  · rw [if_pos (beq_iff_eq.2 hp), Prog.returns_bind_total fun _ _ => by exact ⟨_, rfl⟩, releasePipe_returns]
    exact ⟨fun h => ⟨fun _ => h, fun hn => absurd hp hn⟩, fun h => h.1 hp⟩
  · rw [if_neg fun h => hp (beq_iff_eq.1 h), Prog.returns_bind_total fun _ _ => by exact ⟨_, rfl⟩, fileClose_returns]
    exact ⟨fun h => ⟨fun h' => absurd h' hp, fun _ => h⟩, fun h => h.2 hp⟩

theorem run_returns [DecidableEq P] (hinv : Inv s.fs) (c : FdCall) :
    (c.run p).Returns s ↔ s.Usable p c := by
  cases c with
  | read heap fd buf count =>
      unfold FdCall.run
      rw [Prog.returns_bind_total fun r _ => by cases r <;> exact ⟨_, rfl⟩]
      cases buf with
      | none => exact iff_of_false Prog.not_returns_fault fun h => h.1 rfl
      | some buf => exact sysRead_returns
  | write heap fd buf count => exact sysWrite_returns hinv
  | close fd => exact sysClose_returns
  | lseek fd offset whence => exact sysLseek_returns

theorem Slot.isOpen (h0 : 0 ≤ fd) (h : s.Slot p fd.toNat g) : s.IsOpen p fd := by
  refine ⟨h0, ?_, ?_⟩
  · have hlt := h.local_lt
    omega
  · rw [h.entry]
    nofun

/-- A usable descriptor that is not open is one of those that `sys_write` and `sys_lseek` refuse. -/
theorem run_of_usable_not_open [DecidableEq P] {c : FdCall} (h : s.Usable p c) (hnot : ¬ s.IsOpen p c.fd) :
    c.run p s = .ok (.returned (-1), s) := by
  cases c with
  | read heap fd buf count =>
      obtain ⟨-, h0, -, -, g, hslot, -⟩ := h
      exact absurd (hslot.isOpen h0) hnot
  | write heap fd buf count =>
      by_cases hneg : fd < 0
      · show sysWrite p heap fd buf count s = _
        unfold sysWrite
        rw [if_pos hneg]
        rfl
      · obtain ⟨g, hslot, -⟩ := h.resolve_left hneg
        exact absurd (hslot.isOpen (not_lt.1 hneg)) hnot
  | close fd =>
      obtain ⟨h2, g, hslot, -⟩ := h
      exact absurd (hslot.isOpen (by omega)) hnot
  | lseek fd offset whence =>
      by_cases hout : fd < 0 ∨ fd > MAX_FILES_OPEN
      · show sysLseek p fd offset whence s = _
        unfold sysLseek
        rw [if_pos hout]
        rfl
      · rw [not_or] at hout
        obtain ⟨g, hslot, -⟩ := (h.resolve_left hout.1).resolve_left hout.2
        exact absurd (hslot.isOpen (not_lt.1 hout.1)) hnot

end Calls

theorem usable_started_write {fs : FS} (heap : Requests) (buf : Buf) (count : Nat) :
    (started fs).Usable () (.write heap 2 buf count) := by
  refine .inr ⟨2, ⟨by decide, rfl, by decide⟩, fun h => ?_, fun _ h => ?_, fun _ _ h => ?_⟩
  · have hflag : (0 : Nat) = PIPE_FLAG := h
    exact absurd hflag (by decide)
  · exact absurd h (by decide)
  · have hflag : Writable ⟨0, 0, none⟩ := h
    exact absurd hflag (by decide)

end Tables

end RecoverOS
