import RecoverOS.Base.Run
import RecoverOS.Fs.Path

set_option autoImplicit false

/-! # System calls on files (`fs/fs.c`, `fs/file.c`, and what `userprog` does to open files)

The global `file_table` and the table of every process over the mounted partition. Descriptors 0 to 2 and
pipes, which have no inode, are left out. `fd_pos` is a `size_t`. -/

namespace RecoverOS

/-- `struct file`; `fd_inode` is `none` for `NULL`. -/
structure File where
  fd_pos : Nat
  flag : Nat
  fd_inode : Option Nat

/-- `live` tells which processes exist. -/
structure Kernel (P : Type) where
  fs : FS
  file_table : Nat → File
  fd_table : P → Nat → Option Nat
  cwd_i_no : P → Nat
  live : P → Bool

namespace Kernel

/-- `MAX_FILES_OPEN`. -/
abbrev MAX_FILES_OPEN : Nat := 32

/-- `MAX_FILES_OPEN_PER_PROC`. -/
abbrev MAX_FILES_OPEN_PER_PROC : Nat := 8

/-- `O_WRONLY`. -/
abbrev O_WRONLY : Nat := 1

/-- `O_RDWR`. -/
abbrev O_RDWR : Nat := 2

/-- `O_CREAT`. -/
abbrev O_CREAT : Nat := 4

/-- `enum whence`. -/
inductive Whence where
  | SEEK_SET
  | SEEK_CUR
  | SEEK_END

variable {P : Type} [DecidableEq P]

/-- A call of the layers below. -/
def onFs {α : Type} (m : Prog FS α) : Prog (Kernel P) α := Prog.zoom fs (fun fs s => { s with fs := fs }) m

/-- Store a `struct file`. -/
def setFile (fd_idx : Nat) (f : File) : Prog (Kernel P) Unit :=
  Prog.modify fun s => { s with file_table := Function.update s.file_table fd_idx f }

/-- Store a descriptor. -/
def setFd (p : P) (fd : Nat) (global_fd : Option Nat) : Prog (Kernel P) Unit :=
  Prog.modify fun s =>
    { s with fd_table := Function.update s.fd_table p (Function.update (s.fd_table p) fd global_fd) }

/-! ## Opening and closing -/

/-- `get_free_slot_in_global`. -/
def getFreeSlotInGlobal (s : Kernel P) : Option Nat :=
  (List.range' 3 (MAX_FILES_OPEN - 3)).find? fun fd_idx => (s.file_table fd_idx).fd_inode.isNone

/-- `pcb_fd_install`; `none` stands for `-1`. -/
def pcbFdInstall (p : P) (global_fd_idx : Nat) : Prog (Kernel P) (Option Nat) := do
  let s ← Prog.get
  match (List.range' 3 (MAX_FILES_OPEN_PER_PROC - 3)).find? fun fd => (s.fd_table p fd).isNone with
  | none => pure none
  | some fd => do
      setFd p fd (some global_fd_idx)
      pure (some fd)

/-- `file_create`. -/
def fileCreate (p : P) (pathname : List Byte) (flag : Nat) : Prog (Kernel P) (Option Nat) := do
  let s ← Prog.get
  match getFreeSlotInGlobal s with
  | none => pure none
  | some fd_idx => do
      let created ← onFs (createFileOrDirectory (s.cwd_i_no p) pathname FT_REGULAR)
      match created with
      | none => pure none
      | some inode => do
          setFile fd_idx ⟨0, flag, some inode⟩
          pcbFdInstall p fd_idx

/-- `file_open`. What `search_file` opened stays open when the table is full. -/
def fileOpen (p : P) (pathname : List Byte) (flag : Nat) : Prog (Kernel P) (Option Nat) := do
  let s ← Prog.get
  let found ← onFs (searchFile (s.cwd_i_no p) pathname false)
  match found with
  | none => pure none
  | some inode =>
      match getFreeSlotInGlobal s with
      | none => pure none
      | some fd_idx => do
          setFile fd_idx ⟨0, flag, some inode⟩
          pcbFdInstall p fd_idx

/-- `sys_open`. -/
def sysOpen (p : P) (pathname : List Byte) (flag : Nat) : Prog (Kernel P) (Option Nat) :=
  if flag &&& O_CREAT = O_CREAT then fileCreate p pathname flag else fileOpen p pathname flag

/-- `fd_local2global`. -/
def fdLocal2Global (p : P) (local_fd : Nat) : Prog (Kernel P) Nat := do
  Prog.require (local_fd < MAX_FILES_OPEN_PER_PROC)
  let s ← Prog.get
  match s.fd_table p local_fd with
  | none => Prog.fault .panic
  | some global_fd => do
      Prog.assert (global_fd < MAX_FILES_OPEN)
      pure global_fd

/-- The slot of a descriptor, and the inode in it. -/
def openFile (p : P) (fd : Nat) : Prog (Kernel P) (Nat × File × Nat) := do
  let fd_idx ← fdLocal2Global p fd
  let s ← Prog.get
  let inode ← Prog.ofOption (s.file_table fd_idx).fd_inode
  pure (fd_idx, s.file_table fd_idx, inode)

/-- `sys_close`, with its `file_close`. -/
def sysClose (p : P) (fd : Nat) : Prog (Kernel P) Unit := do
  Prog.assert (2 < fd)
  let (fd_idx, file, inode) ← openFile p fd
  onFs (inodeClose inode)
  setFile fd_idx { file with fd_inode := none }
  setFd p fd none

/-! ## Reading, writing and seeking -/

/-- `sys_read`: the value returned and the contents of `buf` afterwards. -/
def sysRead (p : P) (mallocOk : Nat → Bool) (fd : Nat) (buf : Buf) (count : Nat) :
    Prog (Kernel P) (Int × Buf) := do
  let (fd_idx, file, inode) ← openFile p fd
  let ret ← onFs (inodeRead mallocOk inode buf count file.fd_pos)
  setFile fd_idx { file with fd_pos := u64 (file.fd_pos + u64OfInt ret.1) }
  pure ret

/-- The flag of an open file allows writing. -/
def Writable (file : File) : Prop := file.flag &&& O_WRONLY ≠ 0 ∨ file.flag &&& O_RDWR ≠ 0

instance (file : File) : Decidable (Writable file) := by
  unfold Writable
  infer_instance

/-- `sys_write`. -/
def sysWrite (p : P) (fd : Nat) (buf : Buf) (count : Nat) : Prog (Kernel P) Int := do
  let (fd_idx, file, inode) ← openFile p fd
  if Writable file then do
    let bytes_written ← onFs (inodeWrite inode buf count file.fd_pos)
    setFile fd_idx { file with fd_pos := u64 (file.fd_pos + u64OfInt bytes_written) }
    pure bytes_written
  else pure (-1)

/-- `sys_lseek`. -/
def sysLseek (p : P) (fd : Nat) (offset : Int) (whence : Whence) : Prog (Kernel P) Int := do
  if fd > MAX_FILES_OPEN then pure (-1)
  else do
    let (fd_idx, file, inode) ← openFile p fd
    let i ← onFs (inodeAt inode)
    let file_size := s64 i.i_size
    let new_pos := match whence with
      | .SEEK_SET => offset
      | .SEEK_CUR => s64 (u64 (file.fd_pos + u64OfInt offset))
      | .SEEK_END => s64 (u64OfInt (file_size + offset))
    if new_pos < 0 ∨ new_pos > file_size then pure (-1)
    else do
      setFile fd_idx { file with fd_pos := u64OfInt new_pos }
      pure new_pos

/-! ## Calls on paths -/

/-- `sys_stat`: `inode_no`, `size` and `file_type`, or `none` for `-1`. -/
def sysStat (p : P) (path : List Byte) : Prog (Kernel P) (Option (Nat × Nat × Nat)) := do
  let s ← Prog.get
  let found ← onFs (searchFile (s.cwd_i_no p) path false)
  match found with
  | none => pure none
  | some inode => do
      let i ← onFs (inodeAt inode)
      Prog.assert (1 ≤ i.i_open_cnts)
      onFs (inodeClose inode)
      pure (some (i.i_no, i.i_size, i.f_type))

/-- `sys_opendir`: the inode of the `struct dir`. A file that is no directory stays open. -/
def sysOpendir (p : P) (path : List Byte) : Prog (Kernel P) (Option Nat) := do
  let s ← Prog.get
  let found ← onFs (searchFile (s.cwd_i_no p) path false)
  match found with
  | none => pure none
  | some inode => do
      let i ← onFs (inodeAt inode)
      if i.f_type ≠ FT_DIRECTORY then pure none else pure (some inode)

/-- `sys_unlink` up to its `inode_free`: the inodes of the directory and of the file, or `none` for the
    return of `-1`. -/
def unlinkLookUp (p : P) (pathname : List Byte) : Prog (Kernel P) (Option (Nat × Nat)) := do
  let s ← Prog.get
  let found ← onFs (searchFile (s.cwd_i_no p) pathname false)
  match found with
  | none => pure none
  | some inode => do
      Prog.modify fun s => { s with
        file_table := fun i =>
          if i < MAX_FILES_OPEN ∧ (s.file_table i).fd_inode = some inode then
            { s.file_table i with fd_inode := none }
          else s.file_table i }
      onFs (inodeClose inode)
      onFs (deleteLookUp (s.cwd_i_no p) pathname)

/-- `sys_unlink`. -/
def sysUnlink (mapped : Bool) (p : P) (pathname : List Byte) : Prog (Kernel P) Int := do
  let target ← unlinkLookUp p pathname
  match target with
  | none => pure (-1)
  | some (pinode, inode) => do
      onFs (deleteFound mapped pathname pinode inode)
      pure 0

/-! ## Processes -/

/-- `update_inode_open_cnts`. -/
def updateInodeOpenCnts (p : P) : List Nat → Prog (Kernel P) Unit
  | [] => pure ()
  | local_fd :: fds => do
      let s ← Prog.get
      match s.fd_table p local_fd with
      | none => updateInodeOpenCnts p fds
      | some global_fd => do
          Prog.assert (global_fd < MAX_FILES_OPEN)
          let inode ← Prog.ofOption (s.file_table global_fd).fd_inode
          let i ← onFs (inodeAt inode)
          onFs (setInode inode { i with i_open_cnts := i.i_open_cnts + 1 })
          updateInodeOpenCnts p fds

/-- `sys_fork`: the child gets a copy of the PCB. -/
def sysFork (p child : P) : Prog (Kernel P) Unit := do
  Prog.modify fun s => { s with
    fd_table := Function.update s.fd_table child (s.fd_table p)
    cwd_i_no := Function.update s.cwd_i_no child (s.cwd_i_no p)
    live := Function.update s.live child true }
  updateInodeOpenCnts child (List.range' 3 (MAX_FILES_OPEN_PER_PROC - 3))

/-- The loop of `release_prog_resource`. -/
def closeAll (p : P) : List Nat → Prog (Kernel P) Unit
  | [] => pure ()
  | local_fd :: fds => do
      let s ← Prog.get
      if s.fd_table p local_fd ≠ none then do
        sysClose p local_fd
        closeAll p fds
      else closeAll p fds

/-- `sys_exit`. -/
def sysExit (p : P) : Prog (Kernel P) Unit := do
  closeAll p (List.range' 3 (MAX_FILES_OPEN_PER_PROC - 3))
  Prog.modify fun s => { s with live := Function.update s.live p false }

/-! ## Runs -/

/-- A system call of process `p` with its arguments. -/
inductive Call (P : Type) where
  | open (p : P) (pathname : List Byte) (flag : Nat)
  | close (p : P) (fd : Nat)
  | read (p : P) (mallocOk : Nat → Bool) (fd : Nat) (buf : Buf) (count : Nat)
  | write (p : P) (fd : Nat) (buf : Buf) (count : Nat)
  | lseek (p : P) (fd : Nat) (offset : Int) (whence : Whence)
  | stat (p : P) (path : List Byte)
  | opendir (p : P) (path : List Byte)
  | unlink (mapped : Bool) (p : P) (pathname : List Byte)
  | fork (p child : P)
  | exit (p : P)

namespace Call

/-- What the call does; the value it returns is dropped. -/
def run : Call P → Prog (Kernel P) Unit
  | .open p pathname flag => do let _ ← sysOpen p pathname flag; pure ()
  | close p fd => sysClose p fd
  | read p mallocOk fd buf count => do let _ ← sysRead p mallocOk fd buf count; pure ()
  | write p fd buf count => do let _ ← sysWrite p fd buf count; pure ()
  | lseek p fd offset whence => do let _ ← sysLseek p fd offset whence; pure ()
  | stat p path => do let _ ← sysStat p path; pure ()
  | opendir p path => do let _ ← sysOpendir p path; pure ()
  | unlink mapped p pathname => do let _ ← sysUnlink mapped p pathname; pure ()
  | fork p child => sysFork p child
  | exit p => sysExit p

/-- A write goes to a file other than the root directory, from inside the file or from its end, and its
    buffer fits the address space. -/
def Regular (s : Kernel P) : Call P → Prop
  | write p fd _ count => count < 2 ^ 63 ∧ ∀ fd_idx file inode,
      openFile p fd s = .ok ((fd_idx, file, inode), s) → inode ≠ s.fs.root_dir_inode ∧
        ∀ i, s.fs.inodes inode = some i → file.fd_pos ≤ i.i_size
  | _ => True

/-- One call. -/
def Step (s : Kernel P) (c : Call P) (s' : Kernel P) : Prop := c.Regular s ∧ c.run s = .ok ((), s')

end Call

/-- The file system is just mounted, no file is open, and every process is in the root directory. -/
structure Booted (s : Kernel P) : Prop where
  mounted : ∃ part disk, filesysInit part (FS.boot disk) = .ok ((), s.fs)
  file_table : ∀ i, (s.file_table i).fd_inode = none
  fd_table : ∀ p fd, s.fd_table p fd = none
  cwd_i_no : ∀ p, s.cwd_i_no p = 0

/-- The states that calls lead to. -/
def Reached (s : Kernel P) : Prop := ∃ s0 cs, Booted s0 ∧ Run Call.Step s0 cs s

end Kernel

end RecoverOS
