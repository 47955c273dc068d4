import RecoverOS.Fs.Format
import RecoverOS.Fs.Inode

set_option autoImplicit false

/-! # Directories (`fs/dir.c`)

A directory is a file of entries of 32 bytes. `sys_malloc` has room for the one block that the
`inode_read` of an entry needs. -/

namespace RecoverOS

/-- `MAX_FILE_NAME_LEN`. -/
abbrev MAX_FILE_NAME_LEN : Nat := 16

/-- `struct dir_entry`; `filename` is the characters before the NUL. -/
structure DirEntry where
  filename : List Byte
  i_no : Nat
  f_type : Nat

namespace DirEntry

/-- The bytes of a `struct dir_entry`, as `create_file_or_directory` fills it in. -/
def encode (dir_e : DirEntry) : Buf := putDirEntry Buf.zero 0 dir_e.filename dir_e.i_no dir_e.f_type

end DirEntry

/-- The `i_no` of the entry at a pointer. -/
def entryNo (de : Buf) : Nat := de.getLE 16 8

/-- The `f_type` of the entry at a pointer. -/
def entryType (de : Buf) : Nat := de.getLE 24 4

/-- `strcmp(name, filename) == 0`; a string is the characters before its NUL. -/
def strcmpEq : List Byte → Buf → Bool
  | [], filename => filename 0 == 0
  | c :: name, filename => filename 0 == c && strcmpEq name (filename.from 1)

/-- The number of turns after which the loops below have passed the end of every file. -/
abbrev maxEntries : Nat := MAX_FILE_SIZE / sizeofDirEntry

/-- The loop of `dir_look_up`, from `off` on. -/
def lookUpLoop (parent_inode : Nat) (name : List Byte) :
    Nat → Nat → Buf → Prog FS (Option (Nat × Nat))
  | 0, _, _ => Prog.fault .undefined
  | n + 1, off, de => do
      let i ← inodeAt parent_inode
      if off = i.i_size then pure none
      else do
        let r ← inodeRead (fun _ => true) parent_inode de sizeofDirEntry off
        if r.1 = -1 then Prog.fault .panic
        else if strcmpEq name r.2 then do
          let inode ← inodeOpen (entryNo r.2)
          pure (some (inode, off))
        else lookUpLoop parent_inode name n (off + sizeofDirEntry) r.2

/-- `dir_look_up`: the inode and `*poff`, or `none` for `NULL`. -/
def dirLookUp (parent_inode : Nat) (name : List Byte) : Prog FS (Option (Nat × Nat)) := do
  let i ← inodeAt parent_inode
  Prog.assert (i.f_type = FT_DIRECTORY)
  lookUpLoop parent_inode name (maxEntries + 2) 0 Buf.zero

/-- The loop of `dir_link`, from `off` on, and the `inode_write` after it. -/
def linkLoop (parent_inode : Nat) (dir_e : DirEntry) : Nat → Nat → Buf → Prog FS Bool
  | 0, _, _ => Prog.fault .undefined
  | n + 1, off, de => do
      let i ← inodeAt parent_inode
      if off = i.i_size then do
        let r ← inodeWrite parent_inode dir_e.encode sizeofDirEntry i.i_size
        pure (r != -1)
      else do
        let r ← inodeRead (fun _ => true) parent_inode de sizeofDirEntry off
        if r.1 = -1 then Prog.fault .panic
        else if entryType r.2 = FT_UNKNOWN then do
          let r ← inodeWrite parent_inode dir_e.encode sizeofDirEntry off
          pure (r != -1)
        else linkLoop parent_inode dir_e n (off + sizeofDirEntry) r.2

/-- `dir_link`. -/
def dirLink (parent_inode : Nat) (dir_e : DirEntry) : Prog FS Bool := do
  let found ← dirLookUp parent_inode dir_e.filename
  match found with
  | some (cinode, _) => do
      inodeClose cinode
      pure false
  | none => linkLoop parent_inode dir_e (maxEntries + 2) 0 Buf.zero

/-- `dir_unlink`. The entry is erased with zeros; what `inode_write` returns is not looked at. -/
def dirUnlink (parent_inode : Nat) (name : List Byte) : Prog FS Bool := do
  let found ← dirLookUp parent_inode name
  match found with
  | none => pure false
  | some (cinode, off) => do
      inodeClose cinode
      let _ ← inodeWrite parent_inode Buf.zero sizeofDirEntry off
      pure true

end RecoverOS
