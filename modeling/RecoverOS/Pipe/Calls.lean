import Mathlib.Data.Finset.Basic
import RecoverOS.Device.Ioqueue
import RecoverOS.Fs.Calls
import RecoverOS.Fs.Content

set_option autoImplicit false

/-! # Descriptors of every kind (`pipe/pipe.c`, `fs/fs.c`, `userprog`)

What the calls on descriptors do when a descriptor may be a standard one, a pipe or a file: descriptors 0
to 2 are in the table of a process like the rest, and a slot of `file_table` whose flag is `PIPE_FLAG` is a
pipe, with a page for its queue in `fd_inode` and a count of references in `fd_pos`. -/

namespace RecoverOS

/-- `PIPE_FLAG`. -/
abbrev PIPE_FLAG : Nat := 0xffff

/-- `stdin_no`. -/
abbrev stdin_no : Int := 0

/-- `stdout_no`. -/
abbrev stdout_no : Int := 1

/-- `stderr_no`. -/
abbrev stderr_no : Int := 2

/-- How a call goes on after its checks. A call that waits in a queue is `asleep`; a count with which the
    sums of `inode_read` or `inode_write` wrap lets them run past their buffer, and what is left after
    that is not modelled. -/
inductive Outcome (α : Type) where
  | returned (a : α)
  | asleep
  | overrun

/-- What becomes of a call of `sys_malloc`: a block, `NULL`, or a failed assertion of `create_free_blocks` or of
    `page_map`. -/
inductive Malloc where
  | block
  | null
  | panic
  deriving DecidableEq

/-- What `sys_malloc` makes of the requests of a system call, by the number of the request and its size. Only a
    request for whole pages gets `NULL`. -/
structure Requests where
  answer : Nat → Nat → Malloc
  small : ∀ k size, size ≤ 1024 → answer k size ≠ .null

/-- A heap with room for everything. -/
def Requests.all : Requests := ⟨fun _ _ => .block, nofun⟩

/-- `inode_read` finds nothing to read. -/
def AtEnd (i_size count pos : Nat) : Prop := i_size < u64 (pos + count) ∧ realCount i_size count pos ≤ 0

instance (i_size count pos : Nat) : Decidable (AtEnd i_size count pos) := by unfold AtEnd; infer_instance

/-- The tables and what the descriptors in them lead to. -/
structure Tables (P : Type) where
  fs : FS
  file_table : Nat → File
  fd_table : P → Nat → Option Nat
  /-- The queues in the pages that `sys_pipe` allocated. -/
  pages : Nat → Option (Ioqueue P)
  /-- The word of such a page at the place that `i_size` has in a `struct inode`. -/
  page_size : Nat → Nat
  /-- The address `alloc_pages` hands out next; a page is there. -/
  next_page : Nat
  /-- How often a page was freed. -/
  freed : Nat → Nat
  kbd_buf : Ioqueue P
  /-- What `console_put_str` has printed. -/
  screen : List Byte
  live : Finset P

namespace Tables

open Kernel (MAX_FILES_OPEN MAX_FILES_OPEN_PER_PROC Writable Whence)

variable {P : Type} [DecidableEq P]

/-- Store a `struct file`. -/
def setFile (fd_idx : Nat) (f : File) : Prog (Tables P) Unit :=
  Prog.modify fun s => { s with file_table := Function.update s.file_table fd_idx f }

/-- Store an entry of `fd_table`; `none` stands for `-1`. -/
def setFd (p : P) (fd : Nat) (global_fd : Option Nat) : Prog (Tables P) Unit :=
  Prog.modify fun s =>
    { s with fd_table := Function.update s.fd_table p (Function.update (s.fd_table p) fd global_fd) }

/-! ## Descriptors -/

/-- `fd_local2global`. -/
def fdLocal2Global (p : P) (local_fd : Nat) : Prog (Tables P) Nat := do
  Prog.require (local_fd < MAX_FILES_OPEN_PER_PROC)
  let s ← Prog.get
  match s.fd_table p local_fd with
  | none => Prog.fault .panic
  | some global_fd => do
      Prog.assert (global_fd < MAX_FILES_OPEN)
      pure global_fd

/-- `is_pipe`. -/
def isPipe (p : P) (local_fd : Nat) : Prog (Tables P) Bool := do
  let global_fd ← fdLocal2Global p local_fd
  let s ← Prog.get
  pure ((s.file_table global_fd).flag == PIPE_FLAG)

/-- The inode that `fd_inode` points to. -/
def fdInode (fd_idx : Nat) : Prog (Tables P) Nat := do
  let s ← Prog.get
  let inode ← Prog.ofOption (s.file_table fd_idx).fd_inode
  Prog.require ((s.fs.inodes inode).isSome = true)
  pure inode

/-- The page that `fd_inode` points to, and the queue in it. -/
def fdQueue (fd_idx : Nat) : Prog (Tables P) (Nat × Ioqueue P) := do
  let s ← Prog.get
  let page ← Prog.ofOption (s.file_table fd_idx).fd_inode
  let ioq ← Prog.ofOption (s.pages page)
  pure (page, ioq)

/-- A call of `inode_read` or `inode_write` on an open inode. -/
def onFs {α : Type} (m : Prog FS α) : Prog (Tables P) (Outcome α) := fun s =>
  match m s.fs with
  | .ok (a, fs) => .ok (.returned a, { s with fs := fs })
  | .error .panic => .error .panic
  | .error .undefined => .ok (.overrun, s)

/-! ## Reading and writing -/

/-- `inode_read` on a heap: the read buffer is asked for when there is something to read. -/
def inodeReadHeap (heap : Requests) (inode : Nat) (buf : Buf) (count pos : Nat) : Prog FS (Int × Buf) := do
  let i ← inodeAt inode
  Prog.assert (AtEnd i.i_size count pos ∨ heap.answer 0 (readRequest i.i_size count pos) ≠ .panic)
  inodeRead (fun size => heap.answer 0 size == .block) inode buf count pos

/-- `inode_write` up to the end of its loop, from a position with the sum `last`; `none` stands for the return of
    `-1`. -/
def writeBlocks (inode : Nat) (buf : Buf) (count pos : Nat) : Prog FS (Option (Nat → Nat)) := do
  let last := u64 (pos + count)
  sysMalloc
  let indirectOk ← allocIndirect inode last
  if indirectOk = false then pure none
  else do
    let i ← inodeAt inode
    let all_blocks ← getBlocksLba i
    let w : WriteArgs :=
      { block_idx_start := pos / BLOCK_SIZE
        block_idx_end := divRoundUp last BLOCK_SIZE
        block_off := pos % BLOCK_SIZE
        block_end_off := last % BLOCK_SIZE
        count := count }
    writeLoop w (MAX_FILE_BLOCKS_CNT + 1 - w.block_idx_start) w.block_idx_start all_blocks buf

/-- `inode_write` on a heap: a buffer of two blocks for itself, and then one for `inode_sync`, which panics
    itself on `NULL`. -/
def inodeWriteHeap (heap : Requests) (inode : Nat) (buf : Buf) (count pos : Nat) : Prog FS Int := do
  let last := u64 (pos + count)
  if last > MAX_FILE_SIZE then pure (-1)
  else do
    Prog.assert (heap.answer 0 (BLOCK_SIZE * 2) ≠ .panic)
    if heap.answer 0 (BLOCK_SIZE * 2) = .null then pure (-1)
    else do
      let written ← writeBlocks inode buf count pos
      match written with
      | none => pure (-1)
      | some all_blocks => do
          Prog.assert (heap.answer 1 (SECTOR_SIZE * 2) = .block)
          writeBack inode all_blocks last
          sysFree
          pure (s64 count)

/-- `pipe_read`: the value returned and the contents of `buf` afterwards. -/
def pipeRead (p : P) (fd : Nat) (buf : Buf) (count : Nat) : Prog (Tables P) (Outcome (Int × Buf)) := do
  let global_fd ← fdLocal2Global p fd
  let (page, ioq) ← fdQueue global_fd
  match ioq.pipeRead count with
  | none => pure .asleep
  | some (bytes, ioq) => do
      Prog.modify fun s => { s with pages := Function.update s.pages page (some ioq) }
      pure (.returned (bytes.length, buf.patch 0 bytes.length fun i => bytes.getD i 0))

/-- `pipe_write`. -/
def pipeWrite (p : P) (fd : Nat) (buf : Buf) (count : Nat) : Prog (Tables P) (Outcome Int) := do
  let global_fd ← fdLocal2Global p fd
  let (page, ioq) ← fdQueue global_fd
  match ioq.pipeWrite buf count with
  | none => pure .asleep
  | some (bytes_write, ioq) => do
      Prog.modify fun s => { s with pages := Function.update s.pages page (some ioq) }
      pure (.returned bytes_write)

/-- The loop of `sys_read` over `kbd_buf`. -/
def stdinRead (buf : Buf) (count : Nat) : Prog (Tables P) (Outcome (Int × Buf)) := do
  let s ← Prog.get
  match Ioqueue.readLoop count s.kbd_buf with
  | none => pure .asleep
  | some (bytes, ioq) => do
      Prog.modify fun s => { s with kbd_buf := ioq }
      pure (.returned (if count = 0 then -1 else s64 count,
        buf.patch 0 count fun i => bytes.getD i 0))

/-- `sys_read`; `buf` is `none` for `NULL`. -/
def sysRead (p : P) (heap : Requests) (fd : Int) (buf : Option Buf) (count : Nat) :
    Prog (Tables P) (Outcome (Int × Buf)) :=
  match buf with
  | none => Prog.fault .panic
  | some buf =>
      if fd < 0 ∨ fd = stdout_no ∨ fd = stderr_no then Prog.fault .panic
      else do
        let piped ← isPipe p fd.toNat
        if piped = true then pipeRead p fd.toNat buf count
        else if fd = stdin_no then stdinRead buf count
        else do
          let fd_idx ← fdLocal2Global p fd.toNat
          let s ← Prog.get
          let inode ← fdInode fd_idx
          let ret ← onFs (inodeReadHeap heap inode buf count (s.file_table fd_idx).fd_pos)
          match ret with
          | .returned ret => do
              setFile fd_idx { s.file_table fd_idx with
                fd_pos := u64 ((s.file_table fd_idx).fd_pos + u64OfInt ret.1) }
              pure (.returned ret)
          | .asleep => pure .asleep
          | .overrun => pure .overrun

/-- `console_put_str` of the `count` characters at `buf`, up to the first NUL. -/
def consolePut (buf : Buf) (count : Nat) : Prog (Tables P) Unit :=
  Prog.modify fun s =>
    { s with screen := s.screen ++ ((List.range count).map buf).takeWhile (· != 0) }

/-- `sys_write`. -/
def sysWrite (p : P) (heap : Requests) (fd : Int) (buf : Buf) (count : Nat) :
    Prog (Tables P) (Outcome Int) :=
  if fd < 0 then pure (.returned (-1))
  else do
    let piped ← isPipe p fd.toNat
    if piped = true then pipeWrite p fd.toNat buf count
    else if fd = stdout_no then do
      Prog.assert (heap.answer 0 (u64 (count + 1)) = .block)
      consolePut buf count
      pure (.returned (s64 count))
    else do
      let fd_idx ← fdLocal2Global p fd.toNat
      let s ← Prog.get
      if Writable (s.file_table fd_idx) then do
        let inode ← fdInode fd_idx
        let bytes_written ← onFs (inodeWriteHeap heap inode buf count (s.file_table fd_idx).fd_pos)
        match bytes_written with
        | .returned bytes_written => do
            setFile fd_idx { s.file_table fd_idx with
              fd_pos := u64 ((s.file_table fd_idx).fd_pos + u64OfInt bytes_written) }
            pure (.returned bytes_written)
        | .asleep => pure .asleep
        | .overrun => pure .overrun
      else pure (.returned (-1))

/-- `fd_inode->i_size`, where `fd_inode` is an inode or the page of a pipe. -/
def inodeSize (fd_idx : Nat) : Prog (Tables P) Nat := do
  let s ← Prog.get
  let inode ← Prog.ofOption (s.file_table fd_idx).fd_inode
  match s.fs.inodes inode with
  | some i => pure i.i_size
  | none => do
      Prog.require ((s.pages inode).isSome = true)
      pure (s.page_size inode)

/-- `sys_lseek`. -/
def sysLseek (p : P) (fd offset : Int) (whence : Whence) : Prog (Tables P) (Outcome Int) :=
  if fd < 0 ∨ fd > MAX_FILES_OPEN then pure (.returned (-1))
  else do
    let fd_idx ← fdLocal2Global p fd.toNat
    let s ← Prog.get
    let file := s.file_table fd_idx
    let i_size ← inodeSize fd_idx
    let file_size := s64 i_size
    let new_pos := match whence with
      | .SEEK_SET => offset
      | .SEEK_CUR => s64 (u64 (file.fd_pos + u64OfInt offset))
      | .SEEK_END => s64 (u64OfInt (file_size + offset))
    if new_pos < 0 ∨ new_pos > file_size then pure (.returned (-1))
    else do
      setFile fd_idx { file with fd_pos := u64OfInt new_pos }
      pure (.returned new_pos)

/-! ## Closing -/

/-- `free_pages(&k_v_pool, fd_inode, 1)`. -/
def freePage (page : Nat) : Prog (Tables P) Unit :=
  Prog.modify fun s => { s with
    pages := Function.update s.pages page none
    freed := Function.update s.freed page (s.freed page + 1) }

/-- One reference less to a pipe; the last one frees the page. `true` stands for that. -/
def releasePipe (fd_idx : Nat) : Prog (Tables P) Bool := do
  let s ← Prog.get
  let file := { s.file_table fd_idx with fd_pos := sub64 (s.file_table fd_idx).fd_pos 1 }
  setFile fd_idx file
  if file.fd_pos = 0 then do
    let page ← Prog.ofOption file.fd_inode
    freePage page
    setFile fd_idx { file with fd_inode := none }
    pure true
  else pure false

/-- `file_close`. -/
def fileClose (fd_idx : Nat) : Prog (Tables P) Unit := do
  let inode ← fdInode fd_idx
  let _ ← onFs (inodeClose inode)
  Prog.modify fun s => { s with
    file_table := Function.update s.file_table fd_idx { s.file_table fd_idx with fd_inode := none } }

/-- `sys_close`. -/
def sysClose (p : P) (fd : Int) : Prog (Tables P) (Outcome Int) := do
  Prog.assert (2 < fd)
  let fd_idx ← fdLocal2Global p fd.toNat
  let piped ← isPipe p fd.toNat
  if piped = true then do
    let last ← releasePipe fd_idx
    setFd p fd.toNat none
    pure (.returned (if last = true then 0 else -1))
  else do
    fileClose fd_idx
    setFd p fd.toNat none
    pure (.returned 0)

/-! ## Pipes and processes -/

/-- `get_free_slot_in_global`. -/
def getFreeSlotInGlobal (s : Tables P) : Option Nat :=
  (List.range' 3 (MAX_FILES_OPEN - 3)).find? fun fd_idx => (s.file_table fd_idx).fd_inode.isNone

/-- `pcb_fd_install`. -/
def pcbFdInstall (p : P) (global_fd_idx : Nat) : Prog (Tables P) (Option Nat) := do
  let s ← Prog.get
  match (List.range' 3 (MAX_FILES_OPEN_PER_PROC - 3)).find? fun fd => (s.fd_table p fd).isNone with
  | none => pure none
  | some fd => do
      setFd p fd (some global_fd_idx)
      pure (some fd)

/-- `sys_pipe`: the two entries of `pipefd`. Without a free slot it writes before the table. -/
def sysPipe (p : P) (buf : Nat → Byte) : Prog (Tables P) (Option Nat × Option Nat) := do
  let s ← Prog.get
  let global_fd ← Prog.ofOption (getFreeSlotInGlobal s)
  Prog.modify fun s => { s with
    pages := Function.update s.pages s.next_page (some (Ioqueue.ioqueueInit buf))
    next_page := s.next_page + 1 }
  setFile global_fd ⟨2, PIPE_FLAG, some s.next_page⟩
  let fd0 ← pcbFdInstall p global_fd
  let fd1 ← pcbFdInstall p global_fd
  pure (fd0, fd1)

/-- `sys_fd_redirect`. -/
def sysFdRedirect (p : P) (old_local_fd new_local_fd : Nat) : Prog (Tables P) Unit := do
  Prog.require (old_local_fd < MAX_FILES_OPEN_PER_PROC)
  if new_local_fd < 3 then setFd p old_local_fd (some new_local_fd)
  else do
    Prog.require (new_local_fd < MAX_FILES_OPEN_PER_PROC)
    let s ← Prog.get
    setFd p old_local_fd (s.fd_table p new_local_fd)

/-- `update_inode_open_cnts`. -/
def updateInodeOpenCnts (p : P) : List Nat → Prog (Tables P) Unit
  | [] => pure ()
  | local_fd :: fds => do
      let s ← Prog.get
      match s.fd_table p local_fd with
      | none => updateInodeOpenCnts p fds
      | some global_fd => do
          Prog.assert (global_fd < MAX_FILES_OPEN)
          let piped ← isPipe p local_fd
          if piped = true then do
            setFile global_fd { s.file_table global_fd with
              fd_pos := u64 ((s.file_table global_fd).fd_pos + 1) }
            updateInodeOpenCnts p fds
          else do
            let inode ← fdInode global_fd
            let _ ← onFs (do
              let i ← inodeAt inode
              setInode inode { i with i_open_cnts := i.i_open_cnts + 1 })
            updateInodeOpenCnts p fds

/-- `sys_fork`: the child gets a copy of the PCB. -/
def sysFork (p child : P) : Prog (Tables P) Unit := do
  Prog.modify fun s => { s with
    fd_table := Function.update s.fd_table child (s.fd_table p)
    live := insert child s.live }
  updateInodeOpenCnts child (List.range' 3 (MAX_FILES_OPEN_PER_PROC - 3))

/-- The loop of `release_prog_resource`. -/
def closeAll (p : P) : List Nat → Prog (Tables P) Unit
  | [] => pure ()
  | local_fd :: fds => do
      let s ← Prog.get
      if s.fd_table p local_fd ≠ none then do
        let piped ← isPipe p local_fd
        if piped = true then do
          let global_fd ← fdLocal2Global p local_fd
          let _ ← releasePipe global_fd
          closeAll p fds
        else do
          let _ ← sysClose p local_fd
          closeAll p fds
      else closeAll p fds

/-- `sys_exit`. -/
def sysExit (p : P) : Prog (Tables P) Unit := do
  closeAll p (List.range' 3 (MAX_FILES_OPEN_PER_PROC - 3))
  Prog.modify fun s => { s with live := s.live.erase p }

/-! ## A new process -/

/-- The tables of a kernel with one new process: `init_thread` has set descriptors 0 to 2, and no file has
    been opened. -/
def started (fs : FS) : Tables Unit where
  fs := fs
  file_table _ := ⟨0, 0, none⟩
  fd_table _ fd := if fd < 3 then some fd else none
  pages _ := none
  page_size _ := 0
  next_page := 0
  freed _ := 0
  kbd_buf := Ioqueue.ioqueueInit fun _ => 0
  screen := []
  live := {()}

/-! ## Looking a descriptor up -/

/-- Entry `local_fd` of `fd_table` is inside the table and leads to slot `g` of `file_table`. -/
structure Slot (s : Tables P) (p : P) (local_fd g : Nat) : Prop where
  local_lt : local_fd < MAX_FILES_OPEN_PER_PROC
  entry : s.fd_table p local_fd = some g
  global_lt : g < MAX_FILES_OPEN

section Slot

omit [DecidableEq P]

variable {s t : Tables P} {p : P} {n g : Nat}

theorem Slot.unique {g' : Nat} (h : s.Slot p n g) (h' : s.Slot p n g') : g = g' :=
  Option.some.inj (h.entry.symm.trans h'.entry)

theorem fdLocal2Global_eq_ok : fdLocal2Global p n s = .ok (g, t) ↔ s.Slot p n g ∧ t = s := by
  constructor
  · intro h
    obtain ⟨⟨⟩, s1, hreq, h1⟩ := Prog.bind_eq_ok.1 h
    obtain ⟨hn, rfl⟩ := Prog.require_eq_ok.1 hreq
    obtain ⟨_, _, hget, h2⟩ := Prog.bind_eq_ok.1 h1
    obtain ⟨rfl, rfl⟩ := Prog.get_eq_ok.1 hget
    cases hentry : s.fd_table p n with
    | none =>
        rw [hentry] at h2
        cases h2
    | some g' =>
        rw [hentry] at h2
        obtain ⟨⟨⟩, s2, hassert, h3⟩ := Prog.bind_eq_ok.1 h2
        obtain ⟨hg, rfl⟩ := Prog.assert_eq_ok.1 hassert
        obtain ⟨rfl, rfl⟩ := Prog.pure_eq_ok.1 h3
        exact ⟨⟨hn, hentry, hg⟩, rfl⟩
  · rintro ⟨⟨hn, hentry, hg⟩, rfl⟩
    unfold fdLocal2Global
    rw [Prog.run_require_bind hn, Prog.bind_of_ok (a := t) (t := t) rfl, hentry]
    exact Prog.run_assert_bind hg _ _

theorem Slot.run (h : s.Slot p n g) : fdLocal2Global p n s = .ok (g, s) := fdLocal2Global_eq_ok.2 ⟨h, rfl⟩

theorem isPipe_eq_ok {b : Bool} :
    isPipe p n s = .ok (b, t) ↔ ∃ g, s.Slot p n g ∧ ((s.file_table g).flag == PIPE_FLAG) = b ∧ t = s := by
  constructor
  · intro h
    obtain ⟨g, s1, hg, h1⟩ := Prog.bind_eq_ok.1 h
    obtain ⟨hslot, rfl⟩ := fdLocal2Global_eq_ok.1 hg
    cases h1
    exact ⟨g, hslot, rfl, rfl⟩
  · rintro ⟨g, hslot, rfl, rfl⟩
    exact Prog.bind_of_ok hslot.run _

theorem Slot.isPipe (h : s.Slot p n g) : isPipe p n s = .ok ((s.file_table g).flag == PIPE_FLAG, s) :=
  isPipe_eq_ok.2 ⟨g, h, rfl, rfl⟩

end Slot

end Tables

end RecoverOS
