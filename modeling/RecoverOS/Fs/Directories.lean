import RecoverOS.Fs.PathCalls

set_option autoImplicit false

/-! # Directories stay well formed

`dir_look_up` and `dir_link` stop when the offset is the size of the directory, and nowhere before: the
size has to stay a multiple of the size of an entry. A directory can be opened like any other file, and
`sys_write` does not look at what a descriptor leads to. -/

namespace RecoverOS

/-- Every directory is a sequence of whole entries, and its live entries name allocated inodes. -/
def WellFormed (s : FS) : Prop :=
  ∀ no, s.allocated no → s.IsDirectory no →
    (s.copyOf no).i_size % sizeofDirEntry = 0 ∧
    ∀ off, off % sizeofDirEntry = 0 → off < (s.copyOf no).i_size →
      entryType ((s.file no).from off) ≠ FT_UNKNOWN → s.allocated (entryNo ((s.file no).from off))

/-- The loops of `dir_look_up` and `dir_link` over an open directory end, for every name that fits. -/
def ScansEnd (s : FS) : Prop :=
  ∀ p i, s.inodes p = some i → i.f_type = FT_DIRECTORY →
    (∀ name : List Byte, name.length < MAX_FILE_NAME_LEN → ∃ r t, dirLookUp p name s = .ok (r, t)) ∧
    ∀ dir_e : DirEntry, dir_e.filename.length < MAX_FILE_NAME_LEN → ∃ b t, dirLink p dir_e s = .ok (b, t)

section Root

variable {s t : FS} {m p count pos : Nat} {i : Inode} {buf : Buf}

theorem RootDir.wellFormed (h : RootDir s m) : WellFormed s := by
  intro no ha hdir
  obtain rfl := (h.isDirectory_iff ha).1 hdir
  obtain ⟨r, -, -, -, hsize, hcopy⟩ := h.object
  rw [hcopy, hsize]
  refine ⟨Nat.mul_mod_right 32 m, fun off hal hoff _ => ?_⟩
  have hoff' : off = 32 * (off / 32) := by
    simp only [sizeofDirEntry] at hal
    omega
  rw [hoff']
  exact h.links.ok _ (by omega)

/-- A directory that is open is the root. -/
theorem RootDir.eq_root (h : RootDir s m) (hp : s.inodes p = some i) (htype : i.f_type = FT_DIRECTORY) :
    p = s.root_dir_inode := by
  obtain ⟨r, hr, hno, -⟩ := h.object
  have hdir : s.IsDirectory i.i_no := by
    unfold FS.IsDirectory
    rw [copyOf_object h.dir.inv.table hp]
    exact htype
  have hzero := (h.isDirectory_iff (h.dir.inv.open_allocated p i hp)).1 hdir
  exact h.dir.inv.table.one_object p _ i r hp hr (hzero.trans hno.symm)

theorem RootDir.dirLink_returns (h : RootDir s m) {e : DirEntry}
    (hlen : e.filename.length < MAX_FILE_NAME_LEN) : ∃ b t, RecoverOS.dirLink s.root_dir_inode e s = .ok (b, t) := by
  unfold RecoverOS.dirLink
  cases hlook : s.lookNo 0 e.filename with
  | some no =>
      obtain ⟨k, -, hfind, hno, ha⟩ := h.lookNo_some hlook
      obtain ⟨q, j, u, hopen, hdir, hq, -, -, hcnt⟩ := h.dir.inodeOpen ha
      obtain ⟨off, hrun⟩ := h.dirLookUp_some hlen hlook
      obtain ⟨v, hclose, -⟩ := hdir.inodeClose hq hcnt
      rw [Prog.bind_of_ok (hrun q u hopen)]
      exact ⟨false, v, (Prog.bind_of_ok hclose _).trans rfl⟩
  | none =>
      rw [Prog.bind_of_ok (h.dirLookUp_none hlen hlook)]
      have hle := h.dir.le
      have hslot : ∃ k ≤ m, (findEntry (fun b => entryType b == FT_UNKNOWN) (s.file 0) m 0).getD (32 * m) =
          32 * k := by
        cases hfind : findEntry (fun b => entryType b == FT_UNKNOWN) (s.file 0) m 0 with
        | none => exact ⟨m, Nat.le_refl m, rfl⟩
        | some o =>
            obtain ⟨-, k, hk, ho⟩ := findEntry_some hfind
            exact ⟨k, Nat.le_of_lt hk, ho.trans (Nat.zero_add _)⟩
      obtain ⟨k, hk, hoff⟩ := hslot
      obtain ⟨r, t, hwrite, -⟩ := h.dir.inodeWrite hk e.encode
      refine ⟨r != -1, t, ?_⟩
      show linkLoop s.root_dir_inode e (2240 + 2) 0 Buf.zero s = _
      rw [h.dir.linkLoop (Nat.zero_add _) (by omega : m < 2240 + 2), hoff, Prog.bind_of_ok hwrite]
      rfl

theorem RootDir.scansEnd (h : RootDir s m) : ScansEnd s := by
  intro p i hp htype
  obtain rfl := h.eq_root hp htype
  refine ⟨fun name hlen => ?_, fun dir_e hlen => h.dirLink_returns hlen⟩
  obtain ⟨r, t, -, hrun⟩ := h.dirLookUp hlen
  exact ⟨r, t, hrun⟩

/-- A write from a position that has wrapped below 0 is refused, finds no indirect block, or leaves
    `all_blocks` in its first turn. -/
theorem inodeWrite_beyond {r : Int} (hinv : Inv s) (hp : s.inodes p = some i) (hpos : 2 ^ 63 ≤ pos)
    (hrun : inodeWrite p buf count pos s = .ok (r, t)) : t = s ∨ t = { s with live := s.live + 1 } := by
  have hfuel : 141 - pos / 512 = 0 := by omega
  obtain ⟨-, -, rfl⟩ | ⟨-, ⟨-, -, rfl⟩ | ⟨s1, i1, -, -, ⟨hloop, -⟩ | ⟨all, s2, hloop, -⟩⟩⟩ :=
    inodeWrite_eq_ok hinv hp hrun
  · exact .inl rfl
  · exact .inr rfl
  · rw [hfuel] at hloop
    cases hloop
  · rw [hfuel] at hloop
    cases hloop

/-- Any write to another inode: from inside the file or from its end, or with a position that has wrapped
    below 0. -/
theorem RootDir.inodeWrite_file {r : Int} (h : RootDir s m) (hp : s.inodes p = some i)
    (hne : p ≠ s.root_dir_inode) (hpos : pos ≤ i.i_size ∨ 2 ^ 63 ≤ pos) (hcount : count < 2 ^ 64)
    (hrun : RecoverOS.inodeWrite p buf count pos s = .ok (r, t)) : RootDir t m := by
  have hsize := h.dir.inv.size_le hp
  obtain hpos | hpos := hpos
  · by_cases hfit : pos + count ≤ 71680
    · exact h.inodeWrite hp hne hpos (by omega) hrun
    by_cases hlong : u64 (pos + count) > MAX_FILE_SIZE
    · rw [inodeWrite_too_long hlong] at hrun
      cases hrun
      exact h
    · -- the sum wraps, so that the size stays as it is
      have hlast : u64 (pos + count) ≤ i.i_size := by
        have hmax : MAX_FILE_SIZE = 71680 := rfl
        unfold u64 at hlong ⊢
        omega
      have hframe := RootFrame.inodeWrite h hp hne hrun
      obtain ⟨hinv, i', hwrite, -⟩ := inodeWrite_cases h.dir.inv hp hrun
      have hcov := covered_inodeWrite_wrapped h.dir.inv h.dir.covered hp hlast hrun
      exact hframe.rootDir h hinv hcov fun _ _ => (FS.allocated_congr hwrite.changes.inode_bitmap).2
  · obtain rfl | rfl := inodeWrite_beyond h.dir.inv hp hpos hrun
    · exact h
    · have hframe : RootFrame s { s with live := s.live + 1 } := .of_objects rfl rfl rfl rfl rfl
      exact hframe.rootDir h (h.dir.inv.live _) h.dir.covered fun _ _ ha => ha

end Root

namespace Kernel

variable {P : Type} [DecidableEq P] {s s' : Kernel P} {p : P}

/-- A write goes to a file that is no directory, from inside the file or from its end, or from a position
    that has wrapped below 0; counts are `size_t`. -/
def Call.SparesEntries (s : Kernel P) : Call P → Prop
  | write p fd _ count => count < 2 ^ 64 ∧ ∀ idx f inode i, openFile p fd s = .ok ((idx, f, inode), s) →
      s.fs.inodes inode = some i → i.f_type ≠ FT_DIRECTORY ∧ (f.fd_pos ≤ i.i_size ∨ 2 ^ 63 ≤ f.fd_pos)
  | _ => True

/-- One call that does not write to a directory. -/
def Call.SparingStep (s : Kernel P) (c : Call P) (s' : Kernel P) : Prop :=
  c.SparesEntries s ∧ c.run s = .ok ((), s')

omit [DecidableEq P] in
/-- Such a write changes nothing, or it is a write to an inode other than the root. -/
theorem Rooted.sysWrite_spares (h : Rooted s) {fd count : Nat} {buf : Buf} {r : Int}
    (hspare : (Call.write p fd buf count).SparesEntries s)
    (hrun : Kernel.sysWrite p fd buf count s = .ok (r, s')) : s'.cwd_i_no = s.cwd_i_no ∧ (s'.fs = s.fs ∨
      ∃ inode i pos, s.fs.inodes inode = some i ∧ inode ≠ s.fs.root_dir_inode ∧
        (pos ≤ i.i_size ∨ 2 ^ 63 ≤ pos) ∧ inodeWrite inode buf count pos s.fs = .ok (r, s'.fs)) := by
  obtain ⟨m, hm⟩ := h.fs
  obtain ⟨-, hfile⟩ := hspare
  unfold Kernel.sysWrite at hrun
  obtain ⟨⟨idx, f, inode⟩, s1, hopen, h1⟩ := Prog.bind_eq_ok.1 hrun
  obtain ⟨-, -, -, -, -, rfl⟩ := openFile_eq_ok.1 hopen
  change (if Writable f then _ else _ : Prog (Kernel P) Int) s1 = _ at h1
  split at h1
  · obtain ⟨ret, s2, hwrite, h2⟩ := Prog.bind_eq_ok.1 h1
    obtain ⟨t, hwrite', rfl⟩ := onFs_eq_ok.1 hwrite
    cases h2
    refine ⟨rfl, ?_⟩
    cases hp : s1.fs.inodes inode with
    | none => exact .inl (inodeWrite_none hp hwrite').2.1
    | some i =>
        obtain ⟨htype, hpos⟩ := hfile idx f inode i hopen hp
        have hne : inode ≠ s1.fs.root_dir_inode := by
          rintro rfl
          obtain ⟨r, hr, -, hdir, -⟩ := hm.object
          rw [hp] at hr
          cases hr
          exact htype hdir
        exact .inr ⟨inode, i, f.fd_pos, hp, hne, hpos, hwrite'⟩
  · cases h1
    exact ⟨rfl, .inl rfl⟩

omit [DecidableEq P] in
theorem Rooted.sysWrite_file (h : Rooted s) {fd count : Nat} {buf : Buf} {r : Int}
    (hspare : (Call.write p fd buf count).SparesEntries s)
    (hrun : Kernel.sysWrite p fd buf count s = .ok (r, s')) : Rooted s' := by
  obtain ⟨m, hm⟩ := h.fs
  obtain ⟨hcwd, hfs | ⟨inode, i, pos, hp, hne, hpos, hwrite⟩⟩ := h.sysWrite_spares hspare hrun
  · exact h.congr hcwd (hfs ▸ h.fs)
  · exact h.congr hcwd ⟨m, hm.inodeWrite_file hp hne hpos hspare.1 hwrite⟩

theorem Rooted.sparingStep {c : Call P} (h : Rooted s) (hstep : c.SparingStep s s') : Rooted s' := by
  obtain ⟨hspare, hrun⟩ := hstep
  cases c with
  | write p fd buf count =>
      obtain ⟨r, hcall⟩ := drop_eq_ok hrun
      exact h.sysWrite_file hspare hcall
  | _ =>
      refine h.step ⟨?_, hrun⟩
      trivial

/-- After the start a file `a` is created, and the root directory is opened. -/
theorem exists_sparing_run : ∃ s0 s : Kernel Unit, Booted s0 ∧
    Run Call.SparingStep s0 [.open () [97] (O_CREAT ||| O_RDWR), .opendir () [slashChar]] s := by
  obtain ⟨s0, hs⟩ := exists_booted
  have hfit : FitsPath [97] := fitsPath_of_length (by decide)
  obtain ⟨fd, s1, hcreate⟩ : ∃ fd t, fileCreate () [97] (O_CREAT ||| O_RDWR) s0 = .ok (some fd, t) :=
    hs.fileCreate () hfit (by decide) (Option.some_ne_none (0, [97])) (by decide) (by decide)
  have hopen : Call.SparingStep s0 (.open () [97] (O_CREAT ||| O_RDWR)) s1 :=
    ⟨trivial, Prog.bind_of_ok (show sysOpen () [97] (O_CREAT ||| O_RDWR) s0 = .ok (some fd, s1) from hcreate) _⟩
  have hroot : s1.fs.resolve 0 [slashChar] = some 0 := rfl
  refine ⟨s0, ?_⟩
  obtain ⟨-, hno, -⟩ | ⟨hno, -⟩ | ⟨-, t, -, hdir⟩ | ⟨no, q, t, hno, ho, -⟩ :=
    (hs.rooted.sparingStep hopen).sysOpendir_cases () [slashChar]
  · rw [hroot] at hno
    cases hno
  · rw [hroot] at hno
    cases hno
  · have hstep : Call.SparingStep s1 (.opendir () [slashChar]) { s1 with fs := t } :=
      ⟨trivial, Prog.bind_of_ok hdir _⟩
    exact ⟨_, hs, .cons hopen (.single hstep)⟩
  · rw [hroot] at hno
    exact absurd (Option.some.inj hno).symm ho.ne_zero

/-- Right after the start the root directory is opened like a file. -/
theorem Booted.open_root {s : Kernel Unit} (hs : Booted s) : ∃ s1 fd idx,
    sysOpen () [slashChar] O_RDWR s = .ok (some fd, s1) ∧ RootDir s1.fs 2 ∧ s1.cwd_i_no () = 0 ∧
      openFile () fd s1 =
        .ok ((idx, ⟨0, O_RDWR, some s1.fs.root_dir_inode⟩, s1.fs.root_dir_inode), s1) := by
  obtain ⟨part, disk, hmounted⟩ := hs.mounted
  have hm := rootDir_boot hmounted
  have hfit : FitsPath [slashChar] := fitsPath_of_length (by decide)
  obtain ⟨hunfit, -⟩ | ⟨r, t, hfound, ⟨rfl, -⟩ | ⟨q, rfl, ⟨hslot, -⟩ |
    ⟨idx, fd, fdt, hslot, hfd, hopen⟩⟩⟩ := hs.rooted.fileOpen () [slashChar] O_RDWR
  · exact absurd hfit hunfit
  · cases hfound
  · have hset := List.find?_eq_none.1 hslot 3 (by decide)
    rw [hs.file_table] at hset
    exact absurd rfl hset
  obtain ⟨hv, rfl⟩ : Visited s.fs t ∧ q = s.fs.root_dir_inode := by
    cases hfound with
    | root hv hshared => exact ⟨hv, rfl⟩
    | file ho => exact absurd rfl ho.ne_zero
  obtain ⟨fd, rfl⟩ : ∃ n, fd = some n := by
    cases fd with
    | none => exact absurd (hs.fd_table () 3) (hfd.full rfl)
    | some n => exact ⟨n, rfl⟩
  have hidx := List.mem_range'_1.1 (List.mem_of_find?_eq_some hslot)
  let f : File := ⟨0, O_RDWR, some s.fs.root_dir_inode⟩
  have hself : Function.update s.file_table idx f idx = f := Function.update_self idx f s.file_table
  refine ⟨_, fd, idx, hopen, hv.rootDir hm, hs.rooted.cwd (), ?_⟩
  rw [show t.root_dir_inode = s.fs.root_dir_inode from hv.root]
  exact openFile_eq_ok.2 ⟨hfd.bound fd rfl, hfd.slot fd rfl, hidx.2, hself.symm, rfl, rfl⟩

omit [DecidableEq P] in
/-- A write through a descriptor that is open for it. -/
theorem run_sysWrite {s : Kernel P} {p : P} {fd idx inode count : Nat} {f : File} {buf : Buf} {r : Int}
    {u : FS} (hfile : openFile p fd s = .ok ((idx, f, inode), s)) (hw : Writable f)
    (hwrite : inodeWrite inode buf count f.fd_pos s.fs = .ok (r, u)) :
    ∃ s', sysWrite p fd buf count s = .ok (r, s') ∧ s'.fs = u ∧ s'.cwd_i_no = s.cwd_i_no := by
  unfold Kernel.sysWrite
  rw [Prog.bind_of_ok hfile]
  show ∃ s', (if Writable f then _ else _ : Prog (Kernel P) Int) s = .ok (r, s') ∧ _
  rw [if_pos hw, Prog.bind_of_ok (run_onFs hwrite)]
  exact ⟨_, rfl, rfl, rfl⟩

end Kernel

end RecoverOS
