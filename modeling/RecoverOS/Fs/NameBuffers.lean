import RecoverOS.Fs.Directories
import RecoverOS.Fs.FailedOpen

set_option autoImplicit false

/-! # The buffers that names are copied to (`fs/fs.c`, `fs/inode.c`)

`path_parse` copies a component of a path to the `name` of `search_file`, and `create_file_or_directory`
the text after the last slash to the `filename` of the entry it makes. Both buffers have
`MAX_FILE_NAME_LEN` bytes, and neither of the loops looks at that. -/

namespace RecoverOS

/-! ## What is stored -/

/-- The offsets that the second loop of `path_parse` and the NUL after it store to, from `off` on. -/
def componentStores : List Byte → Nat → List Nat
  | [], off => [off]
  | c :: pathname, off => if c = slashChar then [off] else off :: componentStores pathname (off + 1)

/-- The offsets in `name_store` that `path_parse` stores to. -/
def pathParseStores (pathname : List Byte) : List Nat :=
  componentStores (pathname.dropWhile (· == slashChar)) 0

/-- The offsets in `dst` that the loop of `strcpy` stores to, from `off` on. -/
def strcpyStores : List Byte → Nat → List Nat
  | [], off => [off]
  | _ :: src, off => off :: strcpyStores src (off + 1)

/-- Every store is inside a buffer of `MAX_FILE_NAME_LEN` bytes. -/
def InBuffer (stores : List Nat) : Prop := ∀ off ∈ stores, off < MAX_FILE_NAME_LEN

/-- The loop of `search_file` calls `path_parse` with `path_remain`, from `s` on with the directory
    `pinode` and the path `path`. After a store outside `name` it is not followed. -/
inductive Parses : FS → Nat → List Byte → List Byte → Prop where
  | call (s : FS) (pinode : Nat) (path : List Byte) : Parses s pinode path path
  | turn {s t u : FS} {pinode cinode off : Nat} {c : Inode} {path rest path_remain : List Byte}
      (inBuffer : InBuffer (pathParseStores path)) (parsed : (pathParse path).2 = some rest)
      (found : dirLookUp pinode (pathParse path).1 s = .ok (some (cinode, off), t))
      (object : t.inodes cinode = some c) (type : c.f_type = FT_DIRECTORY)
      (closed : inodeClose pinode t = .ok ((), u)) (later : Parses u cinode rest path_remain) :
      Parses s pinode path path_remain

/-- Everything that `search_file` stores to `name` is inside. -/
def SearchInBuffer (s : FS) (cwd_i_no : Nat) (pathname : List Byte) : Prop :=
  ∀ pinode t path_remain,
    inodeOpen (if pathname.head? = some slashChar then 0 else cwd_i_no) s = .ok (pinode, t) →
    Parses t pinode pathname path_remain → InBuffer (pathParseStores path_remain)

/-- Everything that `create_file_or_directory` stores to `dir_e.filename`, and its `search_file` to `name`,
    is inside. -/
def CreateInBuffer (s : FS) (cwd_i_no : Nat) (pathname : List Byte) : Prop :=
  ∀ inode t, inodeAlloc FT_REGULAR s = .ok (some inode, t) →
    InBuffer (strcpyStores (lastName pathname) 0) ∧ SearchInBuffer t cwd_i_no pathname

/-- Everything that the two searches of `sys_unlink` store to `name` is inside. -/
def UnlinkInBuffer (s : FS) (cwd_i_no : Nat) (pathname : List Byte) : Prop :=
  SearchInBuffer s cwd_i_no pathname ∧ ∀ inode t u,
    searchFile cwd_i_no pathname false s = .ok (some inode, t) → inodeClose inode t = .ok ((), u) →
      SearchInBuffer u cwd_i_no pathname

/-- The components that a search looks at fit their buffer: from directory `d` on, as far as the names
    before them lead to directories. -/
def FS.ShortNames (s : FS) : Nat → Nat → List Byte → Prop
  | 0, _, _ => True
  | n + 1, d, path => (pathParse path).1.length < MAX_FILE_NAME_LEN ∧
      ∀ rest c, (pathParse path).2 = some rest → s.lookNo d (pathParse path).1 = some c →
        s.IsDirectory c → s.ShortNames n c rest

/-- The components that `search_file` looks at fit their buffer. -/
def FS.ShortPath (s : FS) (cwd_i_no : Nat) (pathname : List Byte) : Prop :=
  s.ShortNames (pathname.length + 1) (FS.startNo cwd_i_no pathname) pathname

/-- Every name in a directory ends within its `MAX_FILE_NAME_LEN` bytes. -/
def FS.NamesEnd (s : FS) : Prop :=
  ∀ no, s.allocated no → s.IsDirectory no → ∀ k < (s.copyOf no).i_size / sizeofDirEntry,
    ∃ a < MAX_FILE_NAME_LEN, s.file no (sizeofDirEntry * k + a) = 0

/-! ## How far the loops store -/

section Stores

theorem inBuffer_strcpy {src : List Byte} {off : Nat} :
    InBuffer (strcpyStores src off) ↔ off + src.length < MAX_FILE_NAME_LEN := by
  induction src generalizing off with
  | nil => simp [InBuffer, strcpyStores]
  | cons c src ih =>
      have hcons : InBuffer (off :: strcpyStores src (off + 1)) ↔
          off < MAX_FILE_NAME_LEN ∧ InBuffer (strcpyStores src (off + 1)) := List.forall_mem_cons
      rw [strcpyStores, hcons, ih, List.length_cons]
      omega

theorem inBuffer_component {path : List Byte} {off : Nat} : InBuffer (componentStores path off) ↔
    off + (path.takeWhile (· != slashChar)).length < MAX_FILE_NAME_LEN := by
  induction path generalizing off with
  | nil => simp [InBuffer, componentStores]
  | cons c path ih =>
      rw [componentStores]
      by_cases hc : c = slashChar
      · rw [if_pos hc, List.takeWhile_cons_of_neg (by simp [hc])]
        simp [InBuffer]
      · have hcons : InBuffer (off :: componentStores path (off + 1)) ↔
            off < MAX_FILE_NAME_LEN ∧ InBuffer (componentStores path (off + 1)) := List.forall_mem_cons
        rw [if_neg hc, List.takeWhile_cons_of_pos (by simpa using hc), hcons, ih, List.length_cons]
        omega

/-- `path_parse` stays inside if and only if the component and its NUL fit. -/
theorem inBuffer_pathParse {path : List Byte} :
    InBuffer (pathParseStores path) ↔ (pathParse path).1.length < MAX_FILE_NAME_LEN := by
  unfold pathParseStores
  rw [inBuffer_component, Nat.zero_add]
  rfl

end Stores

/-! ## How far a search stores -/

section Search

variable {s t : FS} {m m' n : Nat} {path : List Byte}

theorem RootDir.shortNames_congr (h : RootDir s m) (ht : RootDir t m')
    (hlook : ∀ name, t.lookNo 0 name = s.lookNo 0 name) : t.ShortNames n 0 path ↔ s.ShortNames n 0 path := by
  induction n generalizing path with
  | zero => exact Iff.rfl
  | succ n ih =>
      unfold FS.ShortNames
      refine and_congr_right fun _ => forall_congr' fun rest => forall_congr' fun c =>
        imp_congr_right fun _ => ?_
      rw [hlook]
      refine imp_congr_right fun hc => ?_
      obtain ⟨-, -, -, -, ha⟩ := h.lookNo_some hc
      obtain ⟨-, -, -, -, ha'⟩ := ht.lookNo_some ((hlook _).trans hc)
      rw [h.isDirectory_iff ha, ht.isDirectory_iff ha']
      refine imp_congr_right fun hzero => ?_
      rw [hzero]
      exact ih

/-- A turn of the loop in the root directory leads back to it. -/
theorem RootDir.turn (h : RootDir s m) {u : FS} {cinode off : Nat} {c : Inode}
    (hlen : (pathParse path).1.length < MAX_FILE_NAME_LEN)
    (hfound : RecoverOS.dirLookUp s.root_dir_inode (pathParse path).1 s = .ok (some (cinode, off), t))
    (hobj : t.inodes cinode = some c) (htype : c.f_type = FT_DIRECTORY)
    (hclosed : inodeClose s.root_dir_inode t = .ok ((), u)) :
    s.lookNo 0 (pathParse path).1 = some 0 ∧ cinode = s.root_dir_inode ∧ Visited s u := by
  obtain ⟨r, v, hr, hrun⟩ := h.dirLookUp hlen
  rw [hfound] at hrun
  cases hrun
  generalize s.lookNo 0 (pathParse path).1 = o at hr
  cases hr with
  | root hv =>
      rw [inodeClose_root hv.root.symm] at hclosed
      cases hclosed
      exact ⟨rfl, rfl, hv⟩
  | file ho =>
      obtain ⟨j, hj, hno, -⟩ := ho.object h
      obtain ⟨-, -, -, ht⟩ := ho.openedOne h
      rw [hobj] at hj
      cases hj
      exact absurd (hno.symm.trans ((ht.type_iff hobj).1 htype)) ho.ne_zero

/-- The loop stays inside its buffer if and only if the components it looks at fit. -/
theorem RootDir.parses_inBuffer (h : RootDir s m) (hn : path.length < n) :
    (∀ path_remain, Parses s s.root_dir_inode path path_remain →
      InBuffer (pathParseStores path_remain)) ↔ s.ShortNames n 0 path := by
  induction n generalizing s path with
  | zero => exact absurd hn (Nat.not_lt_zero _)
  | succ n ih =>
      unfold FS.ShortNames
      constructor
      · intro hall
        have hin := hall path (.call s _ path)
        have hlen := inBuffer_pathParse.1 hin
        refine ⟨hlen, fun rest c hparsed hlook hdir => ?_⟩
        obtain ⟨-, hshort, -⟩ := pathParse_some hparsed
        obtain ⟨-, -, -, -, ha⟩ := h.lookNo_some hlook
        obtain rfl := (h.isDirectory_iff ha).1 hdir
        obtain ⟨off, t, hv, -, hfound⟩ := h.dirLookUp_root hlen hlook
        have ht := hv.rootDir h
        obtain ⟨r, hr, -, htype, -⟩ := ht.object
        rw [hv.root] at hr
        rw [← h.shortNames_congr ht (hv.lookNo h), ← ih ht (by omega : rest.length < n), hv.root]
        exact fun path_remain hp => hall path_remain
          (.turn hin hparsed hfound hr htype (inodeClose_root hv.root.symm) hp)
      · rintro ⟨hlen, hrest⟩ path_remain hp
        cases hp with
        | call => exact inBuffer_pathParse.2 hlen
        | turn hin hparsed hfound hobj htype hclosed hlater =>
            obtain ⟨-, hshort, -⟩ := pathParse_some hparsed
            obtain ⟨hlook, rfl, hv⟩ := h.turn hlen hfound hobj htype hclosed
            have ht := hv.rootDir h
            have hnames := hrest _ 0 hparsed hlook ((h.isDirectory_iff h.allocated_zero).2 rfl)
            rw [← h.shortNames_congr ht (hv.lookNo h), ← ih ht (by omega)] at hnames
            rw [← hv.root] at hlater
            exact hnames path_remain hlater

theorem RootDir.shortPath_congr (h : RootDir s m) (ht : RootDir t m')
    (hlook : ∀ name, t.lookNo 0 name = s.lookNo 0 name) : t.ShortPath 0 path ↔ s.ShortPath 0 path := by
  unfold FS.ShortPath FS.startNo
  rw [ite_self]
  exact h.shortNames_congr ht hlook

theorem RootDir.searchInBuffer_iff (h : RootDir s m) : SearchInBuffer s 0 path ↔ s.ShortPath 0 path := by
  obtain ⟨t, hopen, hv, -⟩ := h.open_start path
  have ht := hv.rootDir h
  rw [ite_self] at hopen
  rw [← h.shortPath_congr ht (hv.lookNo h)]
  unfold SearchInBuffer FS.ShortPath FS.startNo
  rw [ite_self, ← ht.parses_inBuffer (Nat.lt_succ_self path.length), hv.root]
  constructor
  · exact fun hall path_remain hp => hall _ t path_remain hopen hp
  · intro hall pinode t' path_remain hopen' hp
    rw [hopen] at hopen'
    cases hopen'
    exact hall path_remain hp

theorem RootDir.createInBuffer_iff (h : RootDir s m) : CreateInBuffer s 0 path ↔
    bitmapAllocABit s.inode_bitmap = none ∨
      ((lastName path).length < MAX_FILE_NAME_LEN ∧ s.ShortPath 0 path) := by
  unfold CreateInBuffer
  cases hb : bitmapAllocABit s.inode_bitmap with
  | none =>
      refine iff_of_true (fun inode t hrun => ?_) (.inl rfl)
      rw [inodeAlloc_none hb] at hrun
      cases hrun
  | some res =>
      obtain ⟨k, btmp⟩ := res
      obtain ⟨h1, hfile1⟩ := h.createInode hb
      have hpath : (s.createInode k FT_REGULAR).ShortPath 0 path ↔ s.ShortPath 0 path :=
        h.shortPath_congr h1 (h.lookNo_congr h1 hfile1)
      have halloc : inodeAlloc FT_REGULAR s = .ok (some s.next, s.createInode k FT_REGULAR) :=
        inodeAlloc_some h.dir.inv.geometry hb
      have hname : InBuffer (strcpyStores (lastName path) 0) ↔
          (lastName path).length < MAX_FILE_NAME_LEN := by rw [inBuffer_strcpy, Nat.zero_add]
      constructor
      · intro hall
        obtain ⟨hcopied, hsearch⟩ := hall _ _ halloc
        exact .inr ⟨hname.1 hcopied, hpath.1 (h1.searchInBuffer_iff.1 hsearch)⟩
      · rintro (hnone | ⟨hlen, hshort⟩) inode t hrun
        · cases hnone
        · rw [halloc] at hrun
          cases hrun
          exact ⟨hname.2 hlen, h1.searchInBuffer_iff.2 (hpath.2 hshort)⟩

/-- The second search of `sys_unlink` looks at the same components. -/
theorem RootDir.unlinkInBuffer_iff (h : RootDir s m) : UnlinkInBuffer s 0 path ↔ s.ShortPath 0 path := by
  unfold UnlinkInBuffer
  rw [h.searchInBuffer_iff, and_iff_left_iff_imp]
  intro hshort inode t u hfound hclose
  obtain ⟨-, -, hstop⟩ | ⟨r, t', hr, hrun⟩ := h.searchFile path
  · rw [hstop] at hfound
    cases hfound
  rw [hfound] at hrun
  cases hrun
  generalize s.resolve 0 path = o at hr
  obtain ⟨no, rfl⟩ : ∃ no, o = some no := by
    cases hr with
    | root => exact ⟨_, rfl⟩
    | file => exact ⟨_, rfl⟩
  obtain ⟨v, hclose', hv⟩ := hr.close h
  rw [hclose] at hclose'
  cases hclose'
  have hu := hv.rootDir h
  exact hu.searchInBuffer_iff.2 ((h.shortPath_congr hu (hv.lookNo h)).2 hshort)

end Search

/-! ## The names in the root directory -/

/-- The name of every entry of the root directory ends. -/
structure NamedDir (s : FS) (m : Nat) : Prop extends RootDir s m where
  ends : ∀ k < m, ∃ a < MAX_FILE_NAME_LEN, s.file 0 (32 * k + a) = 0

/-- A string that is equal to a name ends where the name does. -/
theorem strcmpEq_nul {name : List Byte} {b : Buf} (h : strcmpEq name b = true) : b name.length = 0 := by
  induction name generalizing b with
  | nil => simpa [strcmpEq] using h
  | cons c name ih =>
      rw [strcmpEq, Bool.and_eq_true] at h
      have hend := ih h.2
      rwa [Buf.from_apply, Nat.add_comm] at hend

section Named

variable {s t : FS} {m p n count pos : Nat} {i : Inode} {buf : Buf} {path : List Byte}

theorem NamedDir.namesEnd (h : NamedDir s m) : s.NamesEnd := by
  intro no ha hdir k hk
  obtain rfl := (h.isDirectory_iff ha).1 hdir
  obtain ⟨r, -, -, -, hsize, hcopy⟩ := h.object
  rw [hcopy, hsize, Nat.mul_div_cancel_left m (by decide)] at hk
  exact h.ends k hk

/-- The entries are the same. -/
theorem NamedDir.congr (h : NamedDir s m) (ht : RootDir t m) (hfile : ∀ a < 32 * m, t.file 0 a = s.file 0 a) :
    NamedDir t m := by
  refine ⟨ht, fun k hk => ?_⟩
  obtain ⟨a, ha, hend⟩ := h.ends k hk
  simp only [MAX_FILE_NAME_LEN] at ha
  exact ⟨a, ha, (hfile _ (by omega)).trans hend⟩

/-- An entry with a name that ends is written over one, or at the end. -/
theorem NamedDir.put {k a : Nat} (h : NamedDir s m) (hk : k ≤ m) (ht : RootDir t (max m (k + 1)))
    (ha : a < MAX_FILE_NAME_LEN) (hend : buf a = 0)
    (hfile : ∀ a < 32 * max m (k + 1), t.file 0 a = (s.file 0).patch (32 * k) 32 buf a) :
    NamedDir t (max m (k + 1)) := by
  simp only [MAX_FILE_NAME_LEN] at ha
  refine ⟨ht, fun l hl => ?_⟩
  by_cases hlk : l = k
  · refine ⟨a, ha, ?_⟩
    rw [hfile _ (by omega), hlk, Buf.patch_inside _ _ (Nat.le_add_right _ _) (by omega),
      Nat.add_sub_cancel_left]
    exact hend
  · obtain ⟨b, hb, hend'⟩ := h.ends l (by omega)
    simp only [MAX_FILE_NAME_LEN] at hb
    refine ⟨b, hb, ?_⟩
    rw [hfile _ (by omega), Buf.patch_outside _ _ (by omega)]
    exact hend'

theorem NamedDir.openCount (h : NamedDir s m) (hp : s.inodes p = some i) (hn : 0 < n) :
    NamedDir (s.setObject p { i with i_open_cnts := n }) m :=
  h.congr (h.toRootDir.openCount hp hn) fun _ ha => (h.dir.openCount hp hn).file_zero ha

theorem NamedDir.close (h : NamedDir s m) (hrun : inodeClose p s = .ok ((), t)) : NamedDir t m := by
  have ht := h.toRootDir.close hrun
  obtain ⟨-, rfl⟩ | ⟨hroot, i, hp, ⟨-, rfl⟩ | ⟨hcnt, rfl⟩⟩ := inodeClose_eq hrun
  · exact h
  · have hframe : RootFrame s (s.dropInode p) :=
      .of_objects rfl (Function.update_of_ne (Ne.symm hroot) _ _) rfl rfl rfl
    exact h.congr ht fun a _ => congrFun (hframe.file h.toRootDir ht.dir.inv.table) a
  · have hpos := h.dir.inv.table.counted p i hp
    exact h.openCount hp (by omega)

theorem NamedDir.visited (h : NamedDir s m) (hv : Visited s t) : NamedDir t m :=
  h.congr (hv.rootDir h.toRootDir) fun a _ => congrFun (hv.file_zero h.toRootDir) a

theorem NamedDir.found {o r : Option Nat} (h : NamedDir s m) (hf : Found s o r t) : NamedDir t m := by
  cases hf with
  | none hv => exact h.visited hv
  | root hv => exact h.visited hv
  | file ho =>
      obtain ⟨-, -, -, ht⟩ := ho.openedOne h.toRootDir
      exact h.congr ht fun a _ => congrFun (ho.file_zero h.toRootDir) a

theorem NamedDir.inodeWrite_file {r : Int} (h : NamedDir s m) (hp : s.inodes p = some i)
    (hne : p ≠ s.root_dir_inode) (hpos : pos ≤ i.i_size ∨ 2 ^ 63 ≤ pos) (hcount : count < 2 ^ 64)
    (hrun : RecoverOS.inodeWrite p buf count pos s = .ok (r, t)) : NamedDir t m := by
  have ht := h.toRootDir.inodeWrite_file hp hne hpos hcount hrun
  have hframe := RootFrame.inodeWrite h.toRootDir hp hne hrun
  exact h.congr ht fun a _ => congrFun (hframe.file h.toRootDir ht.dir.inv.table) a

theorem NamedDir.create {o : Option Nat} (h : NamedDir s m)
    (hrun : createFileOrDirectory 0 path FT_REGULAR s = .ok (o, t)) : ∃ m', NamedDir t m' := by
  obtain ⟨-, hleft⟩ | ⟨rfl, -⟩ := h.create_outcome hrun
  · exact ⟨m, h.congr hleft.rootDir hleft.file⟩
  · obtain ⟨-, hstop⟩ | ⟨u, hnone, -⟩ | ⟨k, u, hcreate, hc⟩ := h.toRootDir.create path
    · rw [hstop] at hrun
      cases hrun
    · rw [hnone] at hrun
      cases hrun
    · rw [hcreate] at hrun
      cases hrun
      obtain ⟨l, hl, -, ht, hfile⟩ := hc.linked
      obtain ⟨⟨d, name⟩, hparent⟩ := Option.ne_none_iff_exists'.1 hc.parent
      obtain ⟨-, rfl, hlen⟩ := h.resolveParent_some hparent
      have hend := strcmpEq_nul (@DirEntry.strcmpEq_encode ⟨lastName path, k, FT_REGULAR⟩ hlen)
      exact ⟨_, h.put hl ht hlen hend hfile⟩

theorem NamedDir.erased (h : NamedDir s m) (he : Erased (s.file 0) m t) : NamedDir t m := by
  obtain ⟨ht, k, hk, hfile⟩ := he
  have hm : max m (k + 1) = m := Nat.max_eq_left hk
  rw [← hm] at ht hfile
  have hput := h.put (Nat.le_of_lt hk) ht (by decide : 0 < MAX_FILE_NAME_LEN) (show Buf.zero 0 = 0 from rfl) hfile
  rwa [hm] at hput

/-- The two entries of a partition that was just formatted are `.` and `..`. -/
theorem namedDir_boot {part : Partition} {disk : Buf}
    (h : filesysInit part (FS.boot disk) = .ok ((), s)) : NamedDir s 2 := by
  have hm := rootDir_boot h
  have hfresh := freshDirectory_root h
  obtain ⟨no, -, hdot⟩ := hfresh.dot
  obtain ⟨no', -, hdotdot⟩ := hfresh.dotdot
  have hdot := (hm.dir.bindsAt_iff validName_dot 0 no).1 hdot
  have hdotdot := (hm.dir.bindsAt_iff validName_dotdot 1 no').1 hdotdot
  refine ⟨hm, fun k hk => ?_⟩
  obtain rfl | rfl : k = 0 ∨ k = 1 := by omega
  · exact ⟨1, by decide, strcmpEq_nul hdot.2.2.1⟩
  · exact ⟨2, by decide, strcmpEq_nul hdotdot.2.2.1⟩

end Named

namespace Kernel

variable {P : Type} [DecidableEq P] {s s' : Kernel P} {p : P} {path : List Byte} {fd : Nat}

/-- Every process is in the root directory, and the names in it end. -/
structure Named (s : Kernel P) : Prop where
  fs : ∃ m, NamedDir s.fs m
  cwd : ∀ p, s.cwd_i_no p = 0

omit [DecidableEq P] in
theorem Named.rooted (h : Named s) : Rooted s := by
  obtain ⟨m, hm⟩ := h.fs
  exact ⟨⟨m, hm.toRootDir⟩, h.cwd⟩

omit [DecidableEq P] in
theorem Named.congr (h : Named s) (hcwd : s'.cwd_i_no = s.cwd_i_no) (hfs : ∃ m, NamedDir s'.fs m) :
    Named s' :=
  ⟨hfs, fun p => by rw [hcwd, h.cwd]⟩

/-! ## Every call -/

theorem Named.sysClose (h : Named s) (hrun : sysClose p fd s = .ok ((), s')) : Named s' := by
  obtain ⟨m, hm⟩ := h.fs
  obtain ⟨-, idx, f, inode, t, -, hclose, rfl⟩ := sysClose_eq_ok.1 hrun
  exact h.congr rfl ⟨m, hm.close hclose⟩

theorem Named.fileCreate (h : Named s) {flag : Nat} {r : Option Nat}
    (hrun : Kernel.fileCreate p path flag s = .ok (r, s')) : Named s' := by
  obtain ⟨m, hm⟩ := h.fs
  unfold Kernel.fileCreate at hrun
  rw [Prog.bind_of_ok (a := s) (t := s) rfl] at hrun
  cases hslot : getFreeSlotInGlobal s with
  | none =>
      rw [hslot] at hrun
      cases hrun
      exact h
  | some idx =>
      rw [hslot] at hrun
      dsimp only at hrun
      rw [h.cwd] at hrun
      obtain ⟨o, s1, hcreate, hrest⟩ := Prog.bind_eq_ok.1 hrun
      obtain ⟨t, hcreate', rfl⟩ := onFs_eq_ok.1 hcreate
      have ht := hm.create hcreate'
      cases o with
      | none =>
          cases hrest
          exact h.congr rfl ht
      | some inode =>
          let s2 : Kernel P := { s with
            fs := t
            file_table := Function.update s.file_table idx ⟨0, flag, some inode⟩ }
          obtain ⟨fd, fdt, hinstall, -⟩ := pcbFdInstall_run p idx s2
          have hrest' : pcbFdInstall p idx s2 = .ok (r, s') := hrest
          rw [hinstall] at hrest'
          cases hrest'
          exact h.congr rfl ht

theorem Named.sysOpen (h : Named s) {flag : Nat} {r : Option Nat}
    (hrun : Kernel.sysOpen p path flag s = .ok (r, s')) : Named s' := by
  obtain ⟨m, hm⟩ := h.fs
  unfold Kernel.sysOpen at hrun
  split at hrun
  · exact h.fileCreate hrun
  · obtain ⟨-, -, hopen⟩ | ⟨r, t, hfound, ⟨-, hopen⟩ | ⟨q, -, ⟨-, hopen⟩ | ⟨idx, fd, fdt, -, -, hopen⟩⟩⟩ :=
      h.rooted.fileOpen p path flag
    · rw [hopen] at hrun
      cases hrun
    all_goals
      rw [hopen] at hrun
      cases hrun
      exact h.congr rfl ⟨m, hm.found hfound⟩

omit [DecidableEq P] in
theorem Named.sysWrite (h : Named s) {count : Nat} {buf : Buf} {r : Int}
    (hspare : (Call.write p fd buf count).SparesEntries s)
    (hrun : Kernel.sysWrite p fd buf count s = .ok (r, s')) : Named s' := by
  obtain ⟨m, hm⟩ := h.fs
  obtain ⟨hcwd, hfs | ⟨inode, i, pos, hp, hne, hpos, hwrite⟩⟩ := h.rooted.sysWrite_spares hspare hrun
  · exact h.congr hcwd (hfs ▸ h.fs)
  · exact h.congr hcwd ⟨m, hm.inodeWrite_file hp hne hpos hspare.1 hwrite⟩

omit [DecidableEq P] in
theorem Named.sysStat (h : Named s) {r : Option (Nat × Nat × Nat)}
    (hrun : Kernel.sysStat p path s = .ok (r, s')) : Named s' := by
  obtain ⟨m, hm⟩ := h.fs
  obtain ⟨o, t, hfound, rfl | ⟨inode, u, hclose, rfl⟩⟩ := h.rooted.sysStat_cases hm.toRootDir hrun
  · exact h.congr rfl ⟨m, hm.found hfound⟩
  · exact h.congr rfl ⟨m, (hm.found hfound).close hclose⟩

omit [DecidableEq P] in
theorem Named.sysOpendir (h : Named s) {r : Option Nat}
    (hrun : Kernel.sysOpendir p path s = .ok (r, s')) : Named s' := by
  obtain ⟨m, hm⟩ := h.fs
  obtain ⟨no, q, t, hfound, rfl⟩ := h.rooted.sysOpendir_found hrun
  exact h.congr rfl ⟨m, hm.found hfound⟩

omit [DecidableEq P] in
theorem Named.sysUnlink (h : Named s) {mapped : Bool} {r : Int}
    (hrun : Kernel.sysUnlink mapped p path s = .ok (r, s')) : Named s' := by
  obtain ⟨m, hm⟩ := h.fs
  obtain ⟨-, -, hstop⟩ | ⟨-, t, hv, hnone⟩ | ⟨no, q, u, -, -, ⟨-, t, hv, hnone⟩ |
    ⟨no', q', v, t, -, -, -, -, ht, -, -, -, hsome⟩ | ⟨no', -, -, hstop⟩⟩ :=
    h.rooted.sysUnlink_cases hm.toRootDir p path
  · rw [hstop] at hrun
    cases hrun
  · rw [hnone] at hrun
    cases hrun
    exact h.congr rfl ⟨m, hm.visited hv⟩
  · rw [hnone] at hrun
    cases hrun
    exact h.congr rfl ⟨m, hm.visited hv⟩
  · rw [hsome] at hrun
    split at hrun
    · cases hrun
      exact h.congr rfl ⟨m, hm.erased ht⟩
    · cases hrun
  · rw [hstop] at hrun
    cases hrun

theorem Named.sysFork {child : P} (h : Named s) (hrun : sysFork p child s = .ok ((), s')) : Named s' := by
  refine updateInodeOpenCnts_invariant (I := Named) (fun s q i hs hp => ?_) (s := { s with
    fd_table := Function.update s.fd_table child (s.fd_table p)
    cwd_i_no := Function.update s.cwd_i_no child (s.cwd_i_no p)
    live := Function.update s.live child true }) ⟨h.fs, fun p' => ?_⟩ hrun
  · obtain ⟨m, hm⟩ := hs.fs
    exact hs.congr rfl ⟨m, hm.openCount hp (Nat.succ_pos i.i_open_cnts)⟩
  · show Function.update s.cwd_i_no child (s.cwd_i_no p) p' = 0
    by_cases hp : p' = child
    · rw [hp, Function.update_self, h.cwd]
    · rw [Function.update_of_ne hp, h.cwd]

theorem Named.sysExit (h : Named s) (hrun : sysExit p s = .ok ((), s')) : Named s' := by
  obtain ⟨⟨⟩, s1, hclose, h1⟩ := Prog.bind_eq_ok.1 hrun
  cases h1
  have hs1 : Named s1 := closeAll_invariant (fun _ _ _ hs hclose => hs.sysClose hclose) h hclose
  exact hs1.congr rfl hs1.fs

theorem Named.sparingStep {c : Call P} (h : Named s) (hstep : c.SparingStep s s') : Named s' := by
  obtain ⟨hspare, hrun⟩ := hstep
  cases c with
  | «open» p pathname flag =>
      obtain ⟨r, hcall⟩ := drop_eq_ok hrun
      exact h.sysOpen hcall
  | close p fd => exact h.sysClose hrun
  | read p mallocOk fd buf count =>
      obtain ⟨r, hcall⟩ := drop_eq_ok hrun
      obtain ⟨hfs, hcwd⟩ := sysRead_fs hcall
      exact h.congr hcwd (hfs ▸ h.fs)
  | write p fd buf count =>
      obtain ⟨r, hcall⟩ := drop_eq_ok hrun
      exact h.sysWrite hspare hcall
  | lseek p fd offset whence =>
      obtain ⟨r, hcall⟩ := drop_eq_ok hrun
      obtain ⟨hfs, hcwd⟩ := sysLseek_fs hcall
      exact h.congr hcwd (hfs ▸ h.fs)
  | stat p path =>
      obtain ⟨r, hcall⟩ := drop_eq_ok hrun
      exact h.sysStat hcall
  | opendir p path =>
      obtain ⟨r, hcall⟩ := drop_eq_ok hrun
      exact h.sysOpendir hcall
  | unlink mapped p pathname =>
      obtain ⟨r, hcall⟩ := drop_eq_ok hrun
      exact h.sysUnlink hcall
  | fork p child => exact h.sysFork hrun
  | exit p => exact h.sysExit hrun

omit [DecidableEq P] in
theorem Booted.named (h : Booted s) : Named s := by
  obtain ⟨part, disk, hmounted⟩ := h.mounted
  exact ⟨⟨2, namedDir_boot hmounted⟩, h.cwd_i_no⟩

/-! ## What a call stores -/

/-- Everything that the call stores to a buffer for a name is inside. -/
def Call.StoresInBuffer (s : Kernel P) : Call P → Prop
  | .open p pathname flag =>
      if flag &&& O_CREAT = O_CREAT then
        getFreeSlotInGlobal s ≠ none → CreateInBuffer s.fs (s.cwd_i_no p) pathname
      else SearchInBuffer s.fs (s.cwd_i_no p) pathname
  | stat p path => SearchInBuffer s.fs (s.cwd_i_no p) path
  | opendir p path => SearchInBuffer s.fs (s.cwd_i_no p) path
  | unlink _ p pathname => UnlinkInBuffer s.fs (s.cwd_i_no p) pathname
  | _ => True

/-- The components of its path that the call gets to have at most `MAX_FILE_NAME_LEN - 1` characters, and
    so has the text after the last slash if a file is created. -/
def Call.ShortNames (s : Kernel P) : Call P → Prop
  | .open p pathname flag =>
      if flag &&& O_CREAT = O_CREAT then
        getFreeSlotInGlobal s = none ∨ bitmapAllocABit s.fs.inode_bitmap = none ∨
          ((lastName pathname).length < MAX_FILE_NAME_LEN ∧ s.fs.ShortPath (s.cwd_i_no p) pathname)
      else s.fs.ShortPath (s.cwd_i_no p) pathname
  | stat p path => s.fs.ShortPath (s.cwd_i_no p) path
  | opendir p path => s.fs.ShortPath (s.cwd_i_no p) path
  | unlink _ p pathname => s.fs.ShortPath (s.cwd_i_no p) pathname
  | _ => True

omit [DecidableEq P] in
theorem Rooted.storesInBuffer_iff (h : Rooted s) (c : Call P) : c.StoresInBuffer s ↔ c.ShortNames s := by
  obtain ⟨m, hm⟩ := h.fs
  cases c with
  | «open» p pathname flag =>
      unfold Call.StoresInBuffer Call.ShortNames
      dsimp only
      rw [h.cwd]
      split
      · rw [hm.createInBuffer_iff]
        exact Classical.or_iff_not_imp_left.symm
      · exact hm.searchInBuffer_iff
  | stat p path =>
      unfold Call.StoresInBuffer Call.ShortNames
      dsimp only
      rw [h.cwd]
      exact hm.searchInBuffer_iff
  | opendir p path =>
      unfold Call.StoresInBuffer Call.ShortNames
      dsimp only
      rw [h.cwd]
      exact hm.searchInBuffer_iff
  | unlink mapped p pathname =>
      unfold Call.StoresInBuffer Call.ShortNames
      dsimp only
      rw [h.cwd]
      exact hm.unlinkInBuffer_iff
  | _ => exact Iff.rfl

/-- After any sequence of calls that do not write to a directory the names in the directories end, and a
    call stores only inside the buffers for names if and only if the names it gets to are short. -/
theorem names_in_buffers_iff {s0 s : Kernel P} {cs : List (Call P)} (h : Booted s0)
    (hrun : Run Call.SparingStep s0 cs s) :
    s.fs.NamesEnd ∧ ∀ c : Call P, c.StoresInBuffer s ↔ c.ShortNames s := by
  have hnamed := hrun.invariant (fun _ _ _ hI hstep => Named.sparingStep hI hstep) h.named
  obtain ⟨m, hm⟩ := hnamed.fs
  exact ⟨hm.namesEnd, fun c => hnamed.rooted.storesInBuffer_iff c⟩

theorem names_in_buffers_created : ∃ s0 s : Kernel Unit, Booted s0 ∧
    Run Call.SparingStep s0 [.open () [97] (O_CREAT ||| O_RDWR), .opendir () [slashChar]] s ∧
    s.fs.NamesEnd ∧ ∀ c : Call Unit, c.StoresInBuffer s ↔ c.ShortNames s := by
  obtain ⟨s0, s, hs, hrun⟩ := exists_sparing_run
  exact ⟨s0, s, hs, hrun, names_in_buffers_iff hs hrun⟩

/-- A slash and 16 characters: the NUL is stored after the end of `name`. -/
theorem not_names_in_buffers_long : ∃ s : Kernel Unit, Booted s ∧
    ¬ (Call.open () (slashChar :: List.replicate 16 97) 0).StoresInBuffer s := by
  obtain ⟨s, hs⟩ := exists_booted
  refine ⟨s, hs, fun hin => ?_⟩
  have hshort := (hs.rooted.storesInBuffer_iff _).1 hin
  have hlen : (pathParse (slashChar :: List.replicate 16 97)).1.length < MAX_FILE_NAME_LEN := hshort.1
  exact absurd hlen (by decide)

end Kernel

end RecoverOS
