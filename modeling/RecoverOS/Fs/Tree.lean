import RecoverOS.Fs.Path
import RecoverOS.Fs.Proofs.Dir

set_option autoImplicit false

/-! # What a path leads to

The files as they are, wherever the newest copy of an inode is, and the inode a path leads to. Nothing
here opens or closes an inode; that `search_file` agrees with it is proved in `Fs.Proofs.Search`. -/

namespace RecoverOS

namespace FS

/-- The `struct inode` of inode `no`, if it is open. -/
def objectOf (s : FS) (no : Nat) : Option Inode := (s.findInode no).bind s.inodes

/-- The inode itself: the object if it is open, or else the record. -/
def copyOf (s : FS) (no : Nat) : Inode := (s.objectOf no).getD (s.record no)

/-- The number of references to inode `no`. -/
def openCount (s : FS) (no : Nat) : Nat := ((s.objectOf no).map Inode.i_open_cnts).getD 0

/-- The bytes of file `no`. -/
def file (s : FS) (no : Nat) : Buf := fun a => (s.copyOf no).byte s.disk a

/-- Inode `no` is a directory. -/
def IsDirectory (s : FS) (no : Nat) : Prop := (s.copyOf no).f_type = FT_DIRECTORY

instance (s : FS) (no : Nat) : Decidable (s.IsDirectory no) := by
  unfold IsDirectory
  infer_instance

/-- The inode number of the first entry of directory `d` with the name, live or erased. -/
def lookNo (s : FS) (d : Nat) (name : List Byte) : Option Nat :=
  (findEntry (strcmpEq name) (s.file d) ((s.copyOf d).i_size / 32) 0).map fun o =>
    entryNo ((s.file d).from o)

/-- Where the components of a path lead from directory `d` on: the directory of the last component, and
    the last component. There is no answer if a component does not fit its buffer. -/
def walk (s : FS) : Nat → Nat → List Byte → Option (Nat × List Byte)
  | 0, _, _ => none
  | n + 1, d, path =>
      if (pathParse path).1.length < MAX_FILE_NAME_LEN then
        match (pathParse path).2 with
        | none => some (d, (pathParse path).1)
        | some rest =>
            match s.lookNo d (pathParse path).1 with
            | none => none
            | some c => if s.IsDirectory c then walk s n c rest else none
      else none

/-- The directory a path starts from. -/
def startNo (cwd_i_no : Nat) (pathname : List Byte) : Nat :=
  if pathname.head? = some slashChar then 0 else cwd_i_no

/-- The directory that holds the last component of a path, and the last component. -/
def resolveParent (s : FS) (cwd_i_no : Nat) (pathname : List Byte) : Option (Nat × List Byte) :=
  s.walk (pathname.length + 1) (startNo cwd_i_no pathname) pathname

/-- The inode a path leads to. -/
def resolve (s : FS) (cwd_i_no : Nat) (pathname : List Byte) : Option Nat :=
  match s.resolveParent cwd_i_no pathname with
  | none => none
  | some (d, name) => if name = [] then some d else s.lookNo d name

/-- The inode that the text after the last slash is bound to in the directory of the last component. -/
def lastNo (s : FS) (cwd_i_no : Nat) (pathname : List Byte) : Option Nat :=
  match s.resolveParent cwd_i_no pathname with
  | none => none
  | some (d, _) => s.lookNo d (lastName pathname)

end FS

/-- The inode numbers that the `m` entries of a directory name are fine, no two entries name one inode
    other than the root, and an entry that is erased has no name. -/
structure Links (ok : Nat → Prop) (m : Nat) (bytes : Buf) : Prop where
  ok : ∀ k < m, ok (entryNo (bytes.from (32 * k)))
  erased : ∀ k < m, entryType (bytes.from (32 * k)) = FT_UNKNOWN → bytes (32 * k) = 0
  once : ∀ k < m, ∀ k' < m, entryNo (bytes.from (32 * k)) = entryNo (bytes.from (32 * k')) →
    entryNo (bytes.from (32 * k)) ≠ 0 → k = k'

/-- The root directory has `m` entries, which name allocated inodes, and it is the only directory: no
    system call makes another. -/
structure RootDir (s : FS) (m : Nat) : Prop where
  dir : IsDir s s.root_dir_inode m (s.file 0)
  links : Links s.allocated m (s.file 0)
  only : ∀ no, s.allocated no → (s.record no).f_type = FT_DIRECTORY → no = 0

/-! ## Copies -/

section Copies

variable {s : FS} {p no : Nat} {i : Inode}

theorem objectOf_eq_some (ht : s.OpenTable) :
    s.objectOf no = some i ↔ ∃ p, s.inodes p = some i ∧ i.i_no = no := by
  unfold FS.objectOf
  constructor
  · intro h
    obtain ⟨q, hfind, hq⟩ := Option.bind_eq_some_iff.1 h
    obtain ⟨-, j, hj, hno⟩ := FS.findInode_some hfind
    rw [hq] at hj
    cases hj
    exact ⟨q, hq, hno⟩
  · rintro ⟨q, hq, rfl⟩
    rw [FS.findInode_of_object ht hq]
    exact hq

theorem objectOf_eq_none (ht : s.OpenTable) :
    s.objectOf no = none ↔ ∀ p i, s.inodes p = some i → i.i_no ≠ no := by
  constructor
  · intro h p i hp hno
    rw [(objectOf_eq_some ht).2 ⟨p, hp, hno⟩] at h
    cases h
  · intro h
    cases hobj : s.objectOf no with
    | none => rfl
    | some i =>
        obtain ⟨p, hp, hno⟩ := (objectOf_eq_some ht).1 hobj
        exact absurd hno (h p i hp)

theorem copyOf_object (ht : s.OpenTable) (hp : s.inodes p = some i) : s.copyOf i.i_no = i := by
  unfold FS.copyOf
  rw [(objectOf_eq_some ht).2 ⟨p, hp, rfl⟩]
  rfl

theorem openCount_object (ht : s.OpenTable) (hp : s.inodes p = some i) :
    s.openCount i.i_no = i.i_open_cnts := by
  unfold FS.openCount
  rw [(objectOf_eq_some ht).2 ⟨p, hp, rfl⟩]
  rfl

theorem copyOf_copy (hinv : Inv s) (ha : s.allocated no) : s.Copy no (s.copyOf no) := by
  unfold FS.copyOf
  cases hobj : s.objectOf no with
  | none => exact ⟨ha, .inr rfl⟩
  | some i =>
      obtain ⟨p, hp, hno⟩ := (objectOf_eq_some hinv.table).1 hobj
      exact ⟨ha, .inl ⟨p, hp, hno⟩⟩

/-- The type of an inode is the same in every copy. -/
theorem copy_type (hinv : Inv s) (hc : s.Copy no i) : i.f_type = (s.record no).f_type := by
  obtain ⟨-, ⟨p, hp, rfl⟩ | rfl⟩ := hc
  · exact (hinv.synced p i hp).type.symm
  · rfl

end Copies

/-! ## The root directory -/

section Links

variable {ok ok' : Nat → Prop} {m k : Nat} {bytes bytes' buf : Buf}

theorem Links.congr (h : Links ok m bytes) (hb : ∀ a < 32 * m, bytes' a = bytes a) :
    Links ok m bytes' := by
  have hno : ∀ k < m, entryNo (bytes'.from (32 * k)) = entryNo (bytes.from (32 * k)) := fun k hk =>
    entryNo_congr fun a _ ha => hb _ (by omega)
  refine ⟨fun k hk => ?_, fun k hk htype => ?_, fun k hk k' hk' heq hne => ?_⟩
  · rw [hno k hk]
    exact h.ok k hk
  · rw [hb _ (by omega)]
    exact h.erased k hk ((entryType_congr fun a _ ha => hb _ (by omega)).symm.trans htype)
  · rw [hno k hk, hno k' hk'] at heq
    rw [hno k hk] at hne
    exact h.once k hk k' hk' heq hne

theorem Links.mono (h : Links ok m bytes)
    (hok : ∀ k < m, ok (entryNo (bytes.from (32 * k))) → ok' (entryNo (bytes.from (32 * k)))) :
    Links ok' m bytes :=
  ⟨fun k hk => hok k hk (h.ok k hk), h.erased, h.once⟩

/-- Entry `k` is replaced, or a new one put at the end. What it names, no other entry names. -/
theorem Links.put (h : Links ok' m bytes) (hk : k ≤ m)
    (hok : ∀ l < m, l ≠ k → ok (entryNo (bytes.from (32 * l))))
    (hnew : ok (entryNo buf)) (hlive : entryType buf = FT_UNKNOWN → buf 0 = 0)
    (hfresh : entryNo buf ≠ 0 → ∀ l < m, l ≠ k → entryNo (bytes.from (32 * l)) ≠ entryNo buf) :
    Links ok (max m (k + 1)) (bytes.patch (32 * k) 32 buf) := by
  have hself : entryNo ((bytes.patch (32 * k) 32 buf).from (32 * k)) = entryNo buf :=
    entryNo_congr (agree_patch_self buf)
  have hother : ∀ l, l ≠ k →
      entryNo ((bytes.patch (32 * k) 32 buf).from (32 * l)) = entryNo (bytes.from (32 * l)) :=
    fun l hl => entryNo_congr (agree_patch_other hl)
  refine ⟨fun l hl => ?_, fun l hl htype => ?_, fun l hl l' hl' heq hne => ?_⟩
  · by_cases hlk : l = k
    · rw [hlk, hself]
      exact hnew
    · rw [hother l hlk]
      exact hok l (by omega) hlk
  · by_cases hlk : l = k
    · rw [hlk, entryType_congr (agree_patch_self buf)] at htype
      rw [hlk, Buf.patch_inside _ _ (Nat.le_refl _) (by omega), Nat.sub_self]
      exact hlive htype
    · rw [entryType_congr (agree_patch_other hlk)] at htype
      rw [Buf.patch_outside _ _ (by omega)]
      exact h.erased l (by omega) htype
  · by_cases hlk : l = k
    · by_cases hlk' : l' = k
      · rw [hlk, hlk']
      · rw [hlk, hself] at hne
        rw [hlk, hself, hother l' hlk'] at heq
        exact absurd heq.symm (hfresh hne l' (by omega) hlk')
    · rw [hother l hlk] at heq hne
      by_cases hlk' : l' = k
      · rw [hlk', hself] at heq
        exact absurd heq (hfresh (heq ▸ hne) l (by omega) hlk)
      · rw [hother l' hlk'] at heq
        exact h.once l (by omega) l' (by omega) heq hne

end Links

section Root

variable {s : FS} {m no : Nat} {bytes : Buf}

theorem RootDir.object (h : RootDir s m) : ∃ r, s.inodes s.root_dir_inode = some r ∧ r.i_no = 0 ∧
    r.f_type = FT_DIRECTORY ∧ r.i_size = 32 * m ∧ s.copyOf 0 = r := by
  obtain ⟨r, hr, htype, hsize, -⟩ := h.dir.object
  obtain ⟨r', hr', hno⟩ := h.dir.inv.table.root
  rw [hr] at hr'
  cases hr'
  exact ⟨r, hr, hno, htype, hsize, hno ▸ copyOf_object h.dir.inv.table hr⟩

theorem RootDir.allocated_zero (h : RootDir s m) : s.allocated 0 := by
  obtain ⟨r, hr, hno, -⟩ := h.object
  exact hno ▸ h.dir.inv.open_allocated _ _ hr

/-- The root is the only directory. -/
theorem RootDir.isDirectory_iff (h : RootDir s m) (ha : s.allocated no) : s.IsDirectory no ↔ no = 0 := by
  constructor
  · intro hd
    exact h.only no ha ((copy_type h.dir.inv (copyOf_copy h.dir.inv ha)).symm.trans hd)
  · rintro rfl
    obtain ⟨r, -, -, htype, -, hcopy⟩ := h.object
    unfold FS.IsDirectory
    rw [hcopy]
    exact htype

/-- The first bytes of the root directory's file are its entries. -/
theorem IsDir.file_zero (hd : IsDir s s.root_dir_inode m bytes) {a : Nat} (ha : a < 32 * m) :
    s.file 0 a = bytes a := by
  obtain ⟨r, hr, -, -, hbytes⟩ := hd.object
  obtain ⟨r', hr', hno⟩ := hd.inv.table.root
  rw [hr] at hr'
  cases hr'
  unfold FS.file
  rw [← hno, copyOf_object hd.inv.table hr]
  exact hbytes a ha

theorem RootDir.of_dir (hd : IsDir s s.root_dir_inode m bytes) (hl : Links s.allocated m bytes)
    (hone : ∀ no, s.allocated no → (s.record no).f_type = FT_DIRECTORY → no = 0) : RootDir s m := by
  obtain ⟨r, hr, htype, hsize, hbytes⟩ := hd.object
  refine ⟨⟨hd.inv, hd.covered, r, hr, htype, hsize, fun a ha => ?_⟩, ?_, hone⟩
  · exact (hbytes a ha).trans (hd.file_zero ha).symm
  · exact hl.congr fun a ha => hd.file_zero ha

theorem RootDir.lookNo_eq (h : RootDir s m) (name : List Byte) :
    s.lookNo 0 name = (findEntry (strcmpEq name) (s.file 0) m 0).map fun o =>
      entryNo ((s.file 0).from o) := by
  obtain ⟨r, -, -, -, hsize, hcopy⟩ := h.object
  unfold FS.lookNo
  rw [hcopy, hsize, Nat.mul_div_cancel_left m (by decide)]

/-- What the root directory names is allocated. -/
theorem RootDir.lookNo_some (h : RootDir s m) {name : List Byte} (hlook : s.lookNo 0 name = some no) :
    ∃ k < m, findEntry (strcmpEq name) (s.file 0) m 0 = some (32 * k) ∧
      entryNo ((s.file 0).from (32 * k)) = no ∧ s.allocated no := by
  rw [h.lookNo_eq] at hlook
  obtain ⟨o, hfind, hno⟩ := Option.map_eq_some_iff.1 hlook
  obtain ⟨-, k, hk, ho⟩ := findEntry_some hfind
  rw [Nat.zero_add] at ho
  rw [ho] at hfind hno
  exact ⟨k, hk, hfind, hno, hno ▸ h.links.ok k hk⟩

end Root

end RecoverOS
