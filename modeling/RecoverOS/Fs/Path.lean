import RecoverOS.Fs.Dir

set_option autoImplicit false

/-! # Path names (`fs/fs.c`, and the end of `fs/inode.c`)

A path name is the characters before its NUL. The components of a path are copied to a buffer of
`MAX_FILE_NAME_LEN` characters that nothing guards. `sysUnlink` is cut where `inode_free` is called. -/

namespace RecoverOS

/-- `/` as a character. -/
abbrev slashChar : Byte := 47

/-- `path_parse`: what it puts in `name_store`, and the rest of the path, `none` for `NULL`. -/
def pathParse (pathname : List Byte) : List Byte × Option (List Byte) :=
  let pathname := pathname.dropWhile (· == slashChar)
  let rest := pathname.dropWhile (· != slashChar)
  (pathname.takeWhile (· != slashChar), if rest = [] then none else some rest)

/-- What follows `strrchr(pathname, '/')`, or all of the path. -/
def lastName (pathname : List Byte) : List Byte :=
  (pathname.reverse.takeWhile (· != slashChar)).reverse

/-- The loop of `search_file`: `pinode` and `name` when `path_parse` has returned `NULL`, or `none` for
    the return of `NULL`. Every turn takes a character off the path. -/
def searchLoop : Nat → Nat → List Byte → Prog FS (Option (Nat × List Byte))
  | 0, _, _ => Prog.fault .undefined
  | n + 1, pinode, path_remain => do
      let parsed := pathParse path_remain
      Prog.require (parsed.1.length < MAX_FILE_NAME_LEN)
      match parsed.2 with
      | none => pure (some (pinode, parsed.1))
      | some path_remain => do
          let found ← dirLookUp pinode parsed.1
          match found with
          | none => do
              inodeClose pinode
              pure none
          | some (cinode, _) => do
              let c ← inodeAt cinode
              if c.f_type ≠ FT_DIRECTORY then do
                inodeClose pinode
                inodeClose cinode
                pure none
              else do
                inodeClose pinode
                searchLoop n cinode path_remain

/-- `search_file`, for a process whose `cwd_i_no` is given. -/
def searchFile (cwd_i_no : Nat) (pathname : List Byte) (is_parent : Bool) : Prog FS (Option Nat) := do
  let pinode ← inodeOpen (if pathname.head? = some slashChar then 0 else cwd_i_no)
  let r ← searchLoop (pathname.length + 1) pinode pathname
  match r with
  | none => pure none
  | some (pinode, name) =>
      if is_parent = true ∨ name = [] then pure (some pinode)
      else do
        let found ← dirLookUp pinode name
        match found with
        | none => do
            inodeClose pinode
            pure none
        | some (cinode, _) => do
            inodeClose pinode
            pure (some cinode)

/-- `create_file_or_directory`. -/
def createFileOrDirectory (cwd_i_no : Nat) (pathname : List Byte) (file_type : Nat) :
    Prog FS (Option Nat) := do
  let created ← inodeAlloc file_type
  match created with
  | none => pure none
  | some inode => do
      let i ← inodeAt inode
      Prog.require ((lastName pathname).length < MAX_FILE_NAME_LEN)
      let dir_e : DirEntry := ⟨lastName pathname, i.i_no, file_type⟩
      let parent ← searchFile cwd_i_no pathname true
      match parent with
      | none => do
          inodeFree inode
          pure none
      | some pinode => do
          let linked ← dirLink pinode dir_e
          if linked = false then do
            inodeFree inode
            inodeClose pinode
            pure none
          else pure (some inode)

/-- `delete_file_or_directory` up to its `inode_free`: `pinode` and `inode`, or `none` for the return of
    `false`. -/
def deleteLookUp (cwd_i_no : Nat) (pathname : List Byte) : Prog FS (Option (Nat × Nat)) := do
  let parent ← searchFile cwd_i_no pathname true
  match parent with
  | none => pure none
  | some pinode => do
      let found ← dirLookUp pinode (lastName pathname)
      match found with
      | none => do
          inodeClose pinode
          pure none
      | some (inode, _) => pure (some (pinode, inode))

/-- `inode_close` of an inode that `inode_free` has released: its open count is 0, and the decrement
    wraps, so it is not released again. `mapped` tells whether `sys_free` left the page of the block
    mapped; without it the access is a page fault. -/
def inodeCloseReleased (mapped : Bool) : Prog FS Unit := Prog.require (mapped = true)

/-- `delete_file_or_directory` from its `inode_free` on. -/
def deleteFound (mapped : Bool) (pathname : List Byte) (pinode inode : Nat) : Prog FS Unit := do
  inodeFree inode
  inodeCloseReleased mapped
  let unlinked ← dirUnlink pinode (lastName pathname)
  Prog.assert (unlinked = true)

end RecoverOS
