import RecoverOS.Fs.Proofs.Calls

set_option autoImplicit false

/-! # Creating and unlinking by path (`fs/file.c`, `fs/fs.c`)

Paths are resolved twice: with `path_parse`, and with `strrchr`. What the second takes for the name is
the component that the first ends on, but a path that ends in a slash or is empty leads to the directory
itself when it is looked up, and names an entry without a name when it is created or deleted. -/

namespace RecoverOS

namespace Kernel

variable {P : Type} [DecidableEq P] {s t : Kernel P} {p : P} {path : List Byte}

/-! ## What is created can be found -/

/-- The descriptor that `file_create` returned, and what a search for the path returns then. -/
theorem Rooted.fileCreate_search {flag fd : Nat} (h : Rooted s) (hfit : FitsPath path) (hstr : 0 ∉ path)
    (hrun : Kernel.fileCreate p path flag s = .ok (some fd, t)) :
    ∃ idx inode i, t.fd_table p fd = some idx ∧ (t.file_table idx).fd_inode = some inode ∧
      t.fs.inodes inode = some i ∧ ¬ s.fs.allocated i.i_no ∧
      ((lastName path = [] ∧ ∀ fs, searchFile (t.cwd_i_no p) path false t.fs ≠ .ok (some inode, fs)) ∨
        (lastName path ≠ [] ∧ ∃ fs, searchFile (t.cwd_i_no p) path false t.fs = .ok (some inode, fs))) := by
  obtain ⟨-, hcreate⟩ | ⟨idx, m, -, hm, ⟨-, hcreate⟩ | ⟨u, hcreate, -⟩ |
    ⟨k, u, fd', fdt, hc, hfd, hcreate⟩⟩ := h.fileCreate p path flag
  · rw [hcreate] at hrun
    cases hrun
  · rw [hcreate] at hrun
    cases hrun
  · rw [hcreate] at hrun
    cases hrun
  rw [hcreate] at hrun
  cases hrun
  obtain ⟨l, -, -, hu, -⟩ := hc.linked
  refine ⟨idx, s.fs.next, newInode k FT_REGULAR, hfd.slot fd rfl, ?_, hc.object, hc.fresh, ?_⟩
  · show (Function.update s.file_table idx _ idx).fd_inode = _
    rw [Function.update_self]
  · dsimp only
    have hres := hc.resolve hm hfit hstr
    rw [h.cwd]
    obtain ⟨hunfit, -, -⟩ | ⟨r, v, hfound, hsearch⟩ := hu.searchFile path
    · exact absurd hfit hunfit
    rw [hres] at hfound
    rw [hsearch]
    by_cases hlast : lastName path = []
    · rw [if_pos hlast] at hfound
      cases hfound with
      | root hv hshared =>
          refine .inl ⟨hlast, fun fs heq => ?_⟩
          obtain ⟨r, hr, -⟩ := hm.object
          have hroot : u.root_dir_inode = s.fs.next :=
            Option.some.inj (congrArg Prod.fst (Except.ok.inj heq))
          rw [hc.root] at hroot
          rw [hroot, hc.pointer] at hr
          cases hr
      | file ho => exact absurd rfl ho.ne_zero
    · rw [if_neg hlast] at hfound
      cases hfound with
      | root => exact absurd hm.allocated_zero hc.fresh
      | file ho =>
          rw [ho.pointer_eq hu hc.object rfl]
          exact .inr ⟨hlast, v, rfl⟩

/-- After `file_create` has returned a descriptor, the path leads to the new inode if and only if it does
    not end in a slash and is not empty. -/
theorem created_found_iff {flag fd : Nat} (h : Reached s) (hfit : FitsPath path) (hstr : 0 ∉ path)
    (hrun : fileCreate p path flag s = .ok (some fd, t)) :
    ∃ idx inode i, t.fd_table p fd = some idx ∧ (t.file_table idx).fd_inode = some inode ∧
      t.fs.inodes inode = some i ∧ ¬ s.fs.allocated i.i_no ∧
      ((∃ fs, searchFile (t.cwd_i_no p) path false t.fs = .ok (some inode, fs)) ↔ lastName path ≠ []) := by
  obtain ⟨idx, inode, i, hfd, hino, hobj, hfresh, hcase⟩ := h.rooted.fileCreate_search hfit hstr hrun
  refine ⟨idx, inode, i, hfd, hino, hobj, hfresh, ?_⟩
  obtain ⟨hlast, hnot⟩ | ⟨hlast, hfound⟩ := hcase
  · exact ⟨fun ⟨fs, hsearch⟩ => absurd hsearch (hnot fs), fun hne => absurd hlast hne⟩
  · exact ⟨fun _ => hlast, fun _ => hfound⟩

/-- A kernel that has just mounted its file system. -/
theorem exists_booted : ∃ s : Kernel Unit, Booted s := by
  obtain ⟨fs, hfs⟩ := @filesysInit_run smallPartition (by decide) (by decide) Buf.zero
  exact ⟨⟨fs, fun _ => ⟨0, 0, none⟩, fun _ _ => none, fun _ => 0, fun _ => true⟩,
    ⟨_, _, hfs⟩, fun _ => rfl, fun _ _ => rfl, fun _ => rfl⟩

omit [DecidableEq P] in
/-- The names in the root directory of a partition just formatted. -/
theorem Booted.lookNo_none {name : List Byte} (h : Booted s) (hstr : 0 ∉ name) (hdot : name ≠ [dotChar])
    (hdotdot : name ≠ [dotChar, dotChar]) : s.fs.lookNo 0 name = none := by
  obtain ⟨part, disk, hmounted⟩ := h.mounted
  have hm := rootDir_boot hmounted
  have hfresh := freshDirectory_root hmounted
  obtain ⟨no, -, hb⟩ := hfresh.dot
  obtain ⟨no', -, hb'⟩ := hfresh.dotdot
  have hb := (hm.dir.bindsAt_iff validName_dot 0 no).1 hb
  have hb' := (hm.dir.bindsAt_iff validName_dotdot 1 no').1 hb'
  cases hlook : s.fs.lookNo 0 name with
  | none => rfl
  | some no =>
      obtain ⟨k, hk, hfind, -⟩ := hm.lookNo_some hlook
      obtain ⟨hmatch, -⟩ := findEntry_some hfind
      obtain rfl | rfl : k = 0 ∨ k = 1 := by omega
      · exact absurd (strcmpEq_inj hstr validName_dot.string hmatch hb.2.2.1) hdot
      · exact absurd (strcmpEq_inj hstr validName_dotdot.string hmatch hb'.2.2.1) hdotdot

/-- Right after the start a file of any other name can be created. -/
theorem Booted.fileCreate (h : Booted s) (p : P) {flag : Nat} (hfit : FitsPath path) (hstr : 0 ∉ path)
    (hparent : s.fs.resolveParent 0 path ≠ none) (hdot : lastName path ≠ [dotChar])
    (hdotdot : lastName path ≠ [dotChar, dotChar]) :
    ∃ fd t, fileCreate p path flag s = .ok (some fd, t) := by
  obtain ⟨part, disk, hmounted⟩ := h.mounted
  have hboot := rootDir_boot hmounted
  obtain ⟨hslot, -⟩ | ⟨idx, m, -, hm, ⟨hunfit, -⟩ | ⟨t, -, -, -, hwhy⟩ |
    ⟨k, t, fd, fdt, -, hfd, hrun⟩⟩ := h.rooted.fileCreate p path flag
  · have hset := List.find?_eq_none.1 hslot 3 (by decide)
    rw [h.file_table] at hset
    exact absurd rfl hset
  · exact absurd hfit hunfit
  · have hm2 : 32 * m = 32 * 2 := by
      obtain ⟨r, hr, -, -, hsize, -⟩ := hm.object
      obtain ⟨r', hr', -, -, hsize', -⟩ := hboot.object
      rw [hr] at hr'
      cases hr'
      exact hsize.symm.trans hsize'
    obtain hbits | hnone | hname | hblocks := hwhy
    · obtain ⟨u, hu, -, -, -, heq⟩ := filesysInit_eq hmounted
      have hclear : ¬ u.allocated 1 := fun ha => absurd ((hu.allocated_iff 1).1 ha) (by decide)
      have hset := bitmapAllocABit_eq_none.1 hbits 1 (by
        rw [inode_bitmap_size hm.dir.inv.geometry]
        decide)
      rw [heq] at hset
      exact absurd ⟨by decide, hset⟩ hclear
    · exact absurd hnone hparent
    · refine absurd (h.lookNo_none (fun h0 => hstr ((lastName_sublist path).subset h0)) hdot hdotdot) hname
    · omega
  · cases fd with
    | none => exact absurd (h.fd_table p 3) (hfd.full rfl)
    | some fd => exact ⟨fd, _, hrun⟩

theorem fitsPath_of_length (hlen : path.length < MAX_FILE_NAME_LEN) : FitsPath path :=
  fun _ hname _ => Nat.lt_of_le_of_lt hname.length_le hlen

/-- `a` is found. -/
theorem created_found_a : ∃ (s t : Kernel Unit) (fd : Nat), Reached s ∧
    fileCreate () [97] O_RDWR s = .ok (some fd, t) ∧
    ∃ inode fs, searchFile (t.cwd_i_no ()) [97] false t.fs = .ok (some inode, fs) := by
  obtain ⟨s, hs⟩ := exists_booted
  have hfit : FitsPath [97] := fitsPath_of_length (by decide)
  obtain ⟨fd, t, hrun⟩ : ∃ fd t, fileCreate () [97] O_RDWR s = .ok (some fd, t) :=
    hs.fileCreate () hfit (by decide) (Option.some_ne_none (0, [97])) (by decide) (by decide)
  have hreach : Reached s := ⟨s, [], hs, .nil⟩
  obtain ⟨idx, inode, i, -, -, -, -, hiff⟩ := created_found_iff hreach hfit (by decide) hrun
  obtain ⟨fs, hsearch⟩ := hiff.2 (by decide)
  exact ⟨s, t, fd, hreach, hrun, inode, fs, hsearch⟩

/-- The empty path creates a file that it does not lead to. -/
theorem not_created_found_nil : ∃ (s t : Kernel Unit) (fd idx inode : Nat), Reached s ∧
    fileCreate () [] O_RDWR s = .ok (some fd, t) ∧ t.fd_table () fd = some idx ∧
    (t.file_table idx).fd_inode = some inode ∧
    ¬ ∃ fs, searchFile (t.cwd_i_no ()) [] false t.fs = .ok (some inode, fs) := by
  obtain ⟨s, hs⟩ := exists_booted
  have hfit : FitsPath [] := fitsPath_of_length (by decide)
  obtain ⟨fd, t, hrun⟩ : ∃ fd t, fileCreate () [] O_RDWR s = .ok (some fd, t) :=
    hs.fileCreate () hfit (by decide) (Option.some_ne_none (0, [])) (by decide) (by decide)
  obtain ⟨idx, inode, i, hslot, hino, -, -, ⟨-, hnot⟩ | ⟨hne, -⟩⟩ :=
    hs.rooted.fileCreate_search hfit (by decide) hrun
  · exact ⟨s, t, fd, idx, inode, ⟨s, [], hs, .nil⟩, hrun, hslot, hino, fun ⟨fs, hsearch⟩ => hnot fs hsearch⟩
  · exact absurd rfl hne

/-! ## Unlinking -/

/-- `sys_unlink` frees no directory, and if it returns, the root and its blocks are still allocated. -/
def SparesDirectories (s : Kernel P) (p : P) (pathname : List Byte) : Prop :=
  (∀ pinode inode t, unlinkLookUp p pathname s = .ok (some (pinode, inode), t) →
    ∃ j, t.fs.inodes inode = some j ∧ j.i_no ≠ 0 ∧ j.f_type ≠ FT_DIRECTORY) ∧
  ∀ mapped r t, sysUnlink mapped p pathname s = .ok (r, t) → t.fs.allocated 0 ∧
    ∀ i k, s.fs.inodes s.fs.root_dir_inode = some i → i.slot s.fs.disk k ≠ 0 →
      t.fs.used (i.slot s.fs.disk k)

omit [DecidableEq P] in
theorem Rooted.not_spares (h : Rooted s) (hlast : s.fs.lastNo 0 path = some 0) :
    ¬ SparesDirectories s p path := by
  obtain ⟨m, hm⟩ := h.fs
  intro hspares
  have hres := hm.resolve_of_lastNo hlast
  obtain ⟨-, hnone, -⟩ | ⟨hnone, -⟩ | ⟨no, q, u, r, t, -, -, hfound, hlook⟩ := h.unlinkLookUp p path
  · exact hres hnone
  · exact hres hnone
  · rw [hlast] at hfound
    cases hfound with
    | root hv hshared =>
        obtain ⟨j, hj, hne, -⟩ := hspares.1 _ _ _ hlook
        obtain ⟨r, hr, hr0, -⟩ := (hv.rootDir hm).object
        have hj' : t.inodes s.fs.root_dir_inode = some j := hj
        rw [← hv.root, hr] at hj'
        cases hj'
        exact hne hr0
    | file ho => exact ho.ne_zero rfl

/-- `sys_unlink` spares the directories if and only if the text after the last slash of the path is not
    bound to the root. -/
theorem unlink_spares_iff (h : Reached s) :
    SparesDirectories s p path ↔ s.fs.lastNo 0 path ≠ some 0 := by
  refine ⟨fun hspares hlast => h.rooted.not_spares hlast hspares, fun hlast => ⟨?_, ?_⟩⟩
  · intro pinode inode t hrun
    obtain ⟨m, hm⟩ := h.rooted.fs
    obtain ⟨-, -, hlook⟩ | ⟨-, u, -, hlook⟩ | ⟨no, q, u, r, v, -, -, hfound, hlook⟩ :=
      h.rooted.unlinkLookUp p path
    · rw [hlook] at hrun
      cases hrun
    · rw [hlook] at hrun
      cases hrun
    · rw [hlook] at hrun
      generalize hno : s.fs.lastNo 0 path = o at hfound
      cases hfound with
      | none => cases hrun
      | root => exact absurd hno hlast
      | file ho =>
          cases hrun
          obtain ⟨j, hj, hjno, -⟩ := ho.object hm
          obtain ⟨-, -, -, hv⟩ := ho.openedOne hm
          have hne : j.i_no ≠ 0 := fun h0 => ho.ne_zero (hjno.symm.trans h0)
          exact ⟨j, hj, hne, fun htype => hne ((hv.type_iff hj).1 htype)⟩
  · intro mapped r t hrun
    obtain ⟨m', hm'⟩ := (h.rooted.sysUnlink hrun).fs
    refine ⟨hm'.allocated_zero, fun i k hi hk => ?_⟩
    obtain ⟨m, hm⟩ := h.rooted.fs
    have hused := hm.dir.inv.used_slot (hm.dir.inv.copy hi) hk
    obtain ⟨-, -, hstop⟩ | ⟨-, u, hv, hnone⟩ | ⟨no, q, u, -, -, ⟨-, v, hv, hnone⟩ |
      ⟨no', q', v, u, -, -, -, -, -, -, -, hkept, hsome⟩ | ⟨no', -, -, hstop⟩⟩ :=
      h.rooted.sysUnlink_cases hm p path
    · rw [hstop] at hrun
      cases hrun
    · rw [hnone] at hrun
      cases hrun
      exact (hv.used_iff _).2 hused
    · rw [hnone] at hrun
      cases hrun
      exact (hv.used_iff _).2 hused
    · rw [hsome] at hrun
      split at hrun
      · cases hrun
        exact hkept i k hi hk
      · cases hrun
    · rw [hstop] at hrun
      cases hrun

omit [DecidableEq P] in
theorem Booted.lookNo_dot (h : Booted s) : s.fs.lookNo 0 [dotChar] = some 0 := by
  obtain ⟨part, disk, hmounted⟩ := h.mounted
  have hm := rootDir_boot hmounted
  obtain ⟨no, ha, hb⟩ := (freshDirectory_root hmounted).dot
  have hb := (hm.dir.bindsAt_iff validName_dot 0 no).1 hb
  have hfind : findEntry (strcmpEq [dotChar]) (s.fs.file 0) 2 0 = some (0 + 32 * 0) :=
    findEntry_eq_some (by decide) hb.2.2.1 fun l hl => absurd hl (Nat.not_lt_zero l)
  have hzero : no = 0 := by
    obtain ⟨u, hu, -, -, -, heq⟩ := filesysInit_eq hmounted
    rw [heq] at ha
    exact (hu.allocated_iff no).1 ha
  rw [hm.lookNo_eq, hfind]
  exact congrArg some (hb.2.2.2.trans hzero)

/-- A path that leads nowhere is harmless. -/
theorem unlink_spares_a : ∃ s : Kernel Unit, Reached s ∧ SparesDirectories s () [97] := by
  obtain ⟨s, hs⟩ := exists_booted
  have hreach : Reached s := ⟨s, [], hs, .nil⟩
  have hnone : s.fs.lookNo 0 [97] = none := hs.lookNo_none (by decide) (by decide) (by decide)
  have hlast : s.fs.lastNo 0 [97] = none := hnone
  refine ⟨s, hreach, (unlink_spares_iff hreach).2 ?_⟩
  rw [hlast]
  exact (Option.some_ne_none 0).symm

/-- Unlinking `.` frees the root directory. -/
theorem not_unlink_spares_dot : ∃ s : Kernel Unit, Reached s ∧ ¬ SparesDirectories s () [dotChar] := by
  obtain ⟨s, hs⟩ := exists_booted
  exact ⟨s, ⟨s, [], hs, .nil⟩, hs.rooted.not_spares hs.lookNo_dot⟩

/-- What `sys_unlink` promises of a file: it returns 0, or it returns -1 and has changed neither the
    directory nor a bitmap nor `file_table`. -/
def UnlinkReturns (s : Kernel P) (mapped : Bool) (p : P) (pathname : List Byte) : Prop :=
  ∃ r t, sysUnlink mapped p pathname s = .ok (r, t) ∧ (r = 0 ∨ (r = -1 ∧ t.fs.file 0 = s.fs.file 0 ∧
    t.fs.inode_bitmap = s.fs.inode_bitmap ∧ t.fs.block_bitmap = s.fs.block_bitmap ∧
    t.file_table = s.file_table))

omit [DecidableEq P] in
theorem Rooted.unlinkReturns_iff {no : Nat} {mapped : Bool} (h : Rooted s)
    (hres : s.fs.resolve 0 path = some no) (hne : no ≠ 0) :
    UnlinkReturns s mapped p path ↔ s.fs.openCount no = 0 ∧ mapped = true := by
  obtain ⟨m, hm⟩ := h.fs
  have hlast := hm.lastNo_of_resolve hres hne
  unfold UnlinkReturns
  obtain ⟨-, hnone, -⟩ | ⟨hnone, -⟩ | ⟨no1, q, u, hres1, -, ⟨hnone, -⟩ |
    ⟨no', q', v, t, hlast', -, hzero, -, -, -, -, -, hsome⟩ | ⟨no', hlast', hwhy, hstop⟩⟩ :=
    h.sysUnlink_cases hm p path
  · rw [hnone] at hres
    cases hres
  · rw [hnone] at hres
    cases hres
  · rw [hnone] at hlast
    cases hlast
  · rw [hlast] at hlast'
    cases hlast'
    rw [hsome]
    cases mapped with
    | false => exact ⟨fun ⟨r, t, hrun, _⟩ => (by cases hrun), fun ⟨_, hm⟩ => (by cases hm)⟩
    | true => exact ⟨fun _ => ⟨hzero, rfl⟩, fun _ => ⟨0, _, rfl, .inl rfl⟩⟩
  · rw [hlast] at hlast'
    cases hlast'
    rw [hstop]
    refine ⟨fun ⟨r, t, hrun, _⟩ => (by cases hrun), fun ⟨hzero, _⟩ => ?_⟩
    exact absurd hzero (hwhy.resolve_left hne)

/-- A file that was just created, and is still open. -/
theorem exists_created : ∃ (s : Kernel Unit) (no : Nat), Reached s ∧ s.fs.resolve 0 [97] = some no ∧
    no ≠ 0 ∧ s.fs.openCount no = 1 := by
  obtain ⟨s, hs⟩ := exists_booted
  have hfit : FitsPath [97] := fitsPath_of_length (by decide)
  obtain ⟨fd, t, hrun⟩ : ∃ fd t, fileCreate () [97] 6 s = .ok (some fd, t) :=
    hs.fileCreate () hfit (by decide) (Option.some_ne_none (0, [97])) (by decide) (by decide)
  have hstep : Call.Step s (.open () [97] 6) t := by
    refine ⟨trivial, ?_⟩
    show (sysOpen () [97] 6 >>= _) s = _
    rw [Prog.bind_of_ok (show sysOpen () [97] 6 s = _ from hrun)]
    rfl
  obtain ⟨-, hcreate⟩ | ⟨idx, m, -, hm, ⟨hunfit, -⟩ | ⟨u, hcreate, -⟩ |
    ⟨k, u, fd', fdt, hc, -, hcreate⟩⟩ := hs.rooted.fileCreate () [97] 6
  · rw [hcreate] at hrun
    cases hrun
  · exact absurd hfit hunfit
  · rw [hcreate] at hrun
    cases hrun
  · rw [hcreate] at hrun
    cases hrun
    obtain ⟨l, -, -, hu, -⟩ := hc.linked
    refine ⟨_, k, ⟨s, _, hs, .single hstep⟩, hc.resolve hm hfit (by decide), ?_, ?_⟩
    · rintro rfl
      exact hc.fresh hm.allocated_zero
    · exact openCount_object hu.dir.inv.table hc.object

end Kernel

end RecoverOS
