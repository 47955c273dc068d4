import RecoverOS.Fs.Calls
import RecoverOS.Fs.Directory
import RecoverOS.Fs.Proofs.Unlink

set_option autoImplicit false

/-! # The root directory and the system calls on files

Every process is in the root directory, and every system call that returns leaves a root directory, as
long as nobody writes to the directory through a descriptor. -/

namespace RecoverOS

/-! ## The calls of the inode layer once more -/

section Layer

variable {s t u : FS} {m p q no n count pos : Nat} {i : Inode} {buf : Buf}

theorem RootDir.openCount (h : RootDir s m) (hp : s.inodes p = some i) (hn : 0 < n) :
    RootDir (s.setObject p { i with i_open_cnts := n }) m :=
  RootDir.of_dir (h.dir.openCount hp hn) h.links h.only

/-- What `inode_close` does when it returns. -/
theorem inodeClose_eq (h : inodeClose p s = .ok ((), t)) :
    (p = s.root_dir_inode ∧ t = s) ∨ (p ≠ s.root_dir_inode ∧ ∃ i, s.inodes p = some i ∧
      ((i.i_open_cnts = 1 ∧ t = s.dropInode p) ∨
        (i.i_open_cnts ≠ 1 ∧ t = s.setObject p { i with i_open_cnts := i.i_open_cnts - 1 }))) := by
  by_cases hroot : p = s.root_dir_inode
  · rw [inodeClose_root hroot] at h
    cases h
    exact .inl ⟨hroot, rfl⟩
  · refine .inr ⟨hroot, ?_⟩
    cases hp : s.inodes p with
    | none =>
        unfold inodeClose at h
        rw [Prog.bind_of_ok (a := s) (t := s) rfl, if_neg hroot] at h
        simp [hp] at h
    | some i =>
        refine ⟨i, rfl, ?_⟩
        by_cases hcnt : i.i_open_cnts = 1
        · rw [inodeClose_last hroot hp hcnt] at h
          cases h
          exact .inl ⟨hcnt, rfl⟩
        · rw [inodeClose_more hroot hp hcnt] at h
          cases h
          exact .inr ⟨hcnt, rfl⟩

theorem RootDir.close (h : RootDir s m) (hrun : inodeClose p s = .ok ((), t)) : RootDir t m := by
  have hinv := inv_inodeClose h.dir.inv hrun
  have hcov := covered_inodeClose h.dir.inv h.dir.covered hrun
  obtain ⟨-, rfl⟩ | ⟨hroot, i, hp, ⟨-, rfl⟩ | ⟨hcnt, rfl⟩⟩ := inodeClose_eq hrun
  · exact h
  · have hframe : RootFrame s (s.dropInode p) :=
      .of_objects rfl (Function.update_of_ne (Ne.symm hroot) _ _) rfl rfl rfl
    exact hframe.rootDir h hinv hcov fun _ _ ha => ha
  · have hpos := h.dir.inv.table.counted p i hp
    exact h.openCount hp (by omega)

/-- A write through a pointer that leads nowhere returns only if it is too long. -/
theorem inodeWrite_none {r : Int} (hp : s.inodes p = none)
    (h : inodeWrite p buf count pos s = .ok (r, t)) :
    r = -1 ∧ t = s ∧ u64 (pos + count) > MAX_FILE_SIZE := by
  by_cases hlong : u64 (pos + count) > MAX_FILE_SIZE
  · rw [inodeWrite_too_long hlong] at h
    cases h
    exact ⟨rfl, rfl, hlong⟩
  · unfold inodeWrite at h
    dsimp only at h
    rw [if_neg hlong] at h
    obtain ⟨⟨⟩, s1, hmalloc, h1⟩ := Prog.bind_eq_ok.1 h
    rw [sysMalloc_eq_ok.1 hmalloc] at h1
    obtain ⟨b, s2, halloc, -⟩ := Prog.bind_eq_ok.1 h1
    unfold allocIndirect at halloc
    obtain ⟨i, s3, hat, -⟩ := Prog.bind_eq_ok.1 halloc
    have hp' : s.inodes p = some i := (inodeAt_eq_ok.1 hat).1
    rw [hp] at hp'
    cases hp'

/-- A write to another inode, from inside the file or from its end. -/
theorem RootDir.inodeWrite {r : Int} (h : RootDir s m) (hp : s.inodes p = some i)
    (hne : p ≠ s.root_dir_inode) (hpos : pos ≤ i.i_size) (hcount : count < 2 ^ 63)
    (hrun : inodeWrite p buf count pos s = .ok (r, t)) : RootDir t m := by
  have hsize := h.dir.inv.size_le hp
  by_cases hfit : pos + count ≤ 71680
  · have hframe := RootFrame.inodeWrite h hp hne hrun
    obtain ⟨hinv, i', hwrite, -⟩ := inodeWrite_cases h.dir.inv hp hrun
    have hcov := covered_inodeWrite h.dir.inv h.dir.covered hp hpos hfit hrun
    exact hframe.rootDir h hinv hcov fun _ _ => (FS.allocated_congr hwrite.changes.inode_bitmap).2
  · have hlong : u64 (pos + count) > MAX_FILE_SIZE := by
      rw [u64_of_lt (by omega)]
      exact Nat.lt_of_not_le hfit
    rw [inodeWrite_too_long hlong] at hrun
    cases hrun
    exact h

theorem Opened.file_zero (h : Opened s no q t) (hs : RootDir s m) : t.file 0 = s.file 0 := by
  obtain ⟨u, hv, hone, ht⟩ := h.openedOne hs
  have hframe : RootFrame u t :=
    .of_objects hone.root (hone.others _ hone.ne_root.symm) hone.disk hone.sb hone.inode_bitmap
  exact (hframe.file (hv.rootDir hs) ht.dir.inv.table).trans (hv.file_zero hs)

theorem Opened.lookNo (h : Opened s no q t) (hs : RootDir s m) (name : List Byte) :
    t.lookNo 0 name = s.lookNo 0 name := by
  obtain ⟨-, -, -, ht⟩ := h.openedOne hs
  exact hs.lookNo_congr ht (h.file_zero hs) name

/-- The root's blocks are the same and in use. -/
theorem Opened.root_slots {r r' : Inode} {k : Nat} (h : Opened s no q t) (hs : RootDir s m)
    (hr : s.inodes s.root_dir_inode = some r) (hr' : t.inodes t.root_dir_inode = some r')
    (hk : r.slot s.disk k ≠ 0) :
    r'.slot t.disk k = r.slot s.disk k ∧ t.used (r.slot s.disk k) := by
  obtain ⟨u, hv, hone, ht⟩ := h.openedOne hs
  rw [hone.root, hone.others _ hone.ne_root.symm] at hr'
  have hused : t.used (r.slot s.disk k) ↔ u.used (r.slot s.disk k) :=
    FS.used_congr hone.sb hone.block_bitmap _
  refine ⟨?_, hused.2 ((hv.used_iff _).2 (hs.dir.inv.used_slot (hs.dir.inv.copy hr) hk))⟩
  rw [hone.disk, hv.disk]
  obtain ⟨r0, a, b, hr0, rfl⟩ := hv
  rw [hr] at hr0
  cases hr0
  have hself : Function.update s.inodes s.root_dir_inode
      (some { r with i_open_cnts := r.i_open_cnts + a }) s.root_dir_inode = some r' := hr'
  rw [Function.update_self] at hself
  cases hself
  exact Inode.slot_openCnts _ k

theorem RootDir.lastNo_some {path : List Byte} (h : RootDir s m) (hlast : s.lastNo 0 path = some no) :
    s.lookNo 0 (lastName path) = some no ∧ (lastName path).length < MAX_FILE_NAME_LEN := by
  unfold FS.lastNo at hlast
  cases hparent : s.resolveParent 0 path with
  | none =>
      rw [hparent] at hlast
      cases hlast
  | some parent =>
      obtain ⟨d, name⟩ := parent
      obtain ⟨rfl, rfl, hlen⟩ := h.resolveParent_some hparent
      rw [hparent] at hlast
      exact ⟨hlast, hlen⟩

/-- What can be deleted can be found. -/
theorem RootDir.resolve_of_lastNo {path : List Byte} (h : RootDir s m)
    (hlast : s.lastNo 0 path = some no) : s.resolve 0 path ≠ none := by
  unfold FS.lastNo at hlast
  unfold FS.resolve
  cases hparent : s.resolveParent 0 path with
  | none =>
      rw [hparent] at hlast
      cases hlast
  | some parent =>
      obtain ⟨d, name⟩ := parent
      obtain ⟨rfl, rfl, -⟩ := h.resolveParent_some hparent
      rw [hparent] at hlast
      dsimp only at hlast ⊢
      split
      · exact Option.some_ne_none _
      · rw [hlast]
        exact Option.some_ne_none _

theorem RootDir.lastNo_of_resolve {path : List Byte} (h : RootDir s m)
    (hres : s.resolve 0 path = some no) (hne : no ≠ 0) : s.lastNo 0 path = some no := by
  unfold FS.resolve at hres
  unfold FS.lastNo
  cases hparent : s.resolveParent 0 path with
  | none =>
      rw [hparent] at hres
      cases hres
  | some parent =>
      obtain ⟨d, name⟩ := parent
      obtain ⟨rfl, rfl, -⟩ := h.resolveParent_some hparent
      rw [hparent] at hres
      dsimp only at hres
      split at hres
      · exact absurd (Option.some.inj hres).symm hne
      · exact hres

/-- The object of the inode that a look-up found. -/
theorem Opened.object (h : Opened s no q t) (hs : RootDir s m) :
    ∃ j, t.inodes q = some j ∧ j.i_no = no ∧ j.i_open_cnts = s.openCount no + 1 := by
  obtain ⟨u, hv, hone, -⟩ := h.openedOne hs
  rw [← hv.openCount hs.dir.inv.table h.ne_zero]
  exact hone.object

theorem Opened.ne_root (h : Opened s no q t) (hs : RootDir s m) : q ≠ t.root_dir_inode := by
  obtain ⟨u, -, hone, -⟩ := h.openedOne hs
  exact hone.root ▸ hone.ne_root

/-- The pointers to other inodes still lead to them. -/
theorem Opened.others (h : Opened s no q t) (hs : RootDir s m) :
    t.root_dir_inode = s.root_dir_inode ∧
      ∀ p, p ≠ q → p ≠ s.root_dir_inode → t.inodes p = s.inodes p := by
  obtain ⟨u, hv, hone, -⟩ := h.openedOne hs
  exact ⟨hone.root.trans hv.root, fun p hpq hp => (hone.others p hpq).trans (hv.inodes_other hp)⟩

/-- An open inode is found under its number. -/
theorem Opened.pointer_eq (h : Opened s no q t) (hs : RootDir s m) (hp : s.inodes p = some i)
    (hno : i.i_no = no) : q = p := by
  obtain ⟨u, hv, hrun⟩ := h.run
  have hne : p ≠ s.root_dir_inode := by
    rintro rfl
    obtain ⟨r, hr, hr0, -⟩ := hs.object
    rw [hp] at hr
    cases hr
    exact h.ne_zero (hno.symm.trans hr0)
  have hpu : u.inodes p = some i := (hv.inodes_other hne).trans hp
  have hfind := FS.findInode_of_object (hv.rootDir hs).dir.inv.table hpu
  rw [hno] at hfind
  rw [inodeOpen_found hfind hpu] at hrun
  cases hrun
  rfl

/-- What `sys_unlink` does with the inode it is about to free: one reference too many is a panic, and the
    root always has one too many. -/
theorem RootDir.delete {path : List Byte} (hs : RootDir s m)
    (hlast : s.lastNo 0 path = some no) (h : Found s (some no) (some q) t) :
    (no ≠ 0 ∧ s.openCount no = 0 ∧ ∃ u, Erased (s.file 0) m u ∧ u.root_dir_inode = s.root_dir_inode ∧
        (∀ p, p ≠ s.root_dir_inode → u.inodes p = Function.update t.inodes q none p) ∧
        (∀ r k, s.inodes s.root_dir_inode = some r → r.slot s.disk k ≠ 0 → u.used (r.slot s.disk k)) ∧
        ∀ mapped, RecoverOS.deleteFound mapped path s.root_dir_inode q t =
          if mapped = true then .ok ((), u) else .error .undefined) ∨
      ((no = 0 ∨ s.openCount no ≠ 0) ∧ ∀ mapped,
        RecoverOS.deleteFound mapped path s.root_dir_inode q t = .error .panic) := by
  -- with another reference `inode_free` does not return
  have hstop : ∀ j, t.inodes q = some j → j.i_open_cnts ≠ 1 → ∀ mapped,
      RecoverOS.deleteFound mapped path s.root_dir_inode q t = .error .panic :=
    fun j hj hcnt mapped => Prog.bind_of_error (inodeFree_shared (h.rootDir hs).dir.inv hj hcnt) _
  cases h with
  | root hv hshared =>
      obtain ⟨r, hr, hcnt⟩ := hshared
      rw [hv.root] at hr
      exact .inr ⟨.inl rfl, hstop r hr (Nat.ne_of_gt hcnt)⟩
  | file ho =>
      obtain ⟨j, hj, hno, hcnt⟩ := ho.object hs
      obtain ⟨-, -, -, ht⟩ := ho.openedOne hs
      by_cases hzero : s.openCount no = 0
      · obtain ⟨hlook, hlen⟩ := hs.lastNo_some hlast
        rw [hzero] at hcnt
        rw [← ho.lookNo hs, ← hno] at hlook
        obtain ⟨u, hu, hroot, hinodes, hused, hrun⟩ := ht.deleteFound hj (ho.ne_root hs) hcnt hlen hlook
        rw [(ho.others hs).1] at hroot hinodes hrun
        rw [ho.file_zero hs] at hu
        refine .inl ⟨ho.ne_zero, hzero, u, hu, hroot, hinodes, fun r k hr hk => ?_, hrun⟩
        obtain ⟨r', hr', hr0, -⟩ := ht.object
        obtain ⟨hslot, hblock⟩ := ho.root_slots hs hr hr' hk
        refine hused _ hblock fun n heq => ?_
        -- the root and the file have no block in common
        have hn : n < 140 := by
          by_contra hge
          exact hk (heq.symm.trans (Inode.blocks_beyond (by omega)))
        rw [← Inode.slot_block hn] at heq
        have hcr := ht.dir.inv.copy hr'
        rw [← hslot] at heq hk
        have hsame := (ht.dir.inv.slot_inj hcr (ht.dir.inv.copy hj) hk heq.symm).1
        exact ho.ne_zero (hno.symm.trans (hsame.symm.trans hr0))
      · exact .inr ⟨.inr hzero, hstop j hj (by omega)⟩

end Layer

/-- The root directory of a partition that was just formatted and mounted. -/
theorem rootDir_boot {part : Partition} {disk : Buf} {s : FS}
    (h : filesysInit part (FS.boot disk) = .ok ((), s)) : RootDir s 2 := by
  have hfresh := freshDirectory_root h
  obtain ⟨t, hm, -, -, -, heq⟩ := filesysInit_eq h
  have hzero : ∀ no, s.allocated no → no = 0 := fun no ha => by
    rw [heq] at ha
    exact (hm.allocated_iff no).1 ha
  obtain ⟨i, hp, htype, hsize⟩ := hfresh.object
  obtain ⟨bytes, hdir⟩ : ∃ bytes, IsDir s s.root_dir_inode 2 bytes :=
    ⟨fun a => i.byte s.disk a, hfresh.reachable.reachable.inv, hfresh.reachable.covered, i, hp, htype,
      hsize, fun _ _ => rfl⟩
  obtain ⟨no, ha, hdot⟩ := hfresh.dot
  obtain ⟨no', ha', hdotdot⟩ := hfresh.dotdot
  have hdot := (hdir.bindsAt_iff validName_dot 0 no).1 hdot
  have hdotdot := (hdir.bindsAt_iff validName_dotdot 1 no').1 hdotdot
  have hentry : ∀ k < 2, entryNo (bytes.from (32 * k)) = 0 ∧
      entryType (bytes.from (32 * k)) ≠ FT_UNKNOWN := by
    intro k hk
    obtain rfl | rfl : k = 0 ∨ k = 1 := by omega
    · exact ⟨hdot.2.2.2.trans (hzero no ha), hdot.2.1⟩
    · exact ⟨hdotdot.2.2.2.trans (hzero no' ha'), hdotdot.2.1⟩
  refine RootDir.of_dir hdir ⟨fun k hk => ?_, fun k hk hu => absurd hu (hentry k hk).2,
    fun k hk _ _ _ hne => absurd (hentry k hk).1 hne⟩ fun no ha _ => hzero no ha
  rw [(hentry k hk).1]
  exact hzero no ha ▸ ha

namespace Kernel

variable {P : Type} [DecidableEq P] {s s' : Kernel P} {p : P} {path : List Byte}

/-- The root directory is what it should be, and every process is in it. -/
structure Rooted (s : Kernel P) : Prop where
  fs : ∃ m, RootDir s.fs m
  cwd : ∀ p, s.cwd_i_no p = 0

section OnFs

variable {α : Type} {m : Prog FS α} {a : α} {t : FS}

omit [DecidableEq P] in
@[simp] theorem onFs_eq_ok : onFs m s = .ok (a, s') ↔ ∃ t, m s.fs = .ok (a, t) ∧ s' = { s with fs := t } :=
  Prog.zoom_eq_ok

omit [DecidableEq P] in
theorem run_onFs (h : m s.fs = .ok (a, t)) : onFs m s = .ok (a, { s with fs := t }) :=
  onFs_eq_ok.2 ⟨t, h, rfl⟩

omit [DecidableEq P] in
theorem run_onFs_error {e : Fault} (h : m s.fs = .error e) : onFs m s = .error e := by
  unfold onFs Prog.zoom
  rw [h]

end OnFs

omit [DecidableEq P] in
theorem Rooted.congr (h : Rooted s) (hcwd : s'.cwd_i_no = s.cwd_i_no) (hfs : ∃ m, RootDir s'.fs m) :
    Rooted s' :=
  ⟨hfs, fun p => by rw [hcwd, h.cwd]⟩

/-! ## Descriptors -/

/-- The descriptor that `pcb_fd_install` found for a slot, and the tables it leaves. -/
structure Installed (s : Kernel P) (p : P) (idx : Nat) (r : Option Nat) (t : P → Nat → Option Nat) :
    Prop where
  slot : ∀ fd, r = some fd → t p fd = some idx
  bound : ∀ fd, r = some fd → fd < MAX_FILES_OPEN_PER_PROC
  full : r = none → s.fd_table p 3 ≠ none
  others : ∀ fd, t p fd = s.fd_table p fd ∨ (r = some fd ∧ s.fd_table p fd = none)

theorem pcbFdInstall_run (p : P) (idx : Nat) (s : Kernel P) :
    ∃ r t, pcbFdInstall p idx s = .ok (r, { s with fd_table := t }) ∧ Installed s p idx r t := by
  unfold pcbFdInstall
  rw [Prog.bind_of_ok (a := s) (t := s) rfl]
  cases hfind : (List.range' 3 (MAX_FILES_OPEN_PER_PROC - 3)).find? fun fd =>
      (s.fd_table p fd).isNone with
  | none =>
      refine ⟨none, s.fd_table, rfl, nofun, nofun, fun _ hfree => ?_, fun _ => .inl rfl⟩
      have hset := List.find?_eq_none.1 hfind 3 (by decide)
      rw [hfree] at hset
      exact hset rfl
  | some fd =>
      refine ⟨some fd, _, rfl, fun fd' heq => ?_, fun fd' heq => ?_, nofun, fun fd' => ?_⟩
      · cases heq
        rw [Function.update_self, Function.update_self]
      · cases heq
        have hmem := List.mem_range'_1.1 (List.mem_of_find?_eq_some hfind)
        exact hmem.2
      · rw [Function.update_self]
        by_cases hfd : fd' = fd
        · rw [hfd]
          have hfree := List.find?_some (p := fun fd => (s.fd_table p fd).isNone) hfind
          exact .inr ⟨rfl, Option.isNone_iff_eq_none.1 hfree⟩
        · exact .inl (Function.update_of_ne hfd _ _)

omit [DecidableEq P] in
/-- A descriptor of a process, with its slot and the inode in it. -/
theorem openFile_eq_ok {fd fd_idx inode : Nat} {f : File} :
    openFile p fd s = .ok ((fd_idx, f, inode), s') ↔ fd < MAX_FILES_OPEN_PER_PROC ∧
      s.fd_table p fd = some fd_idx ∧ fd_idx < MAX_FILES_OPEN ∧ f = s.file_table fd_idx ∧
      f.fd_inode = some inode ∧ s' = s := by
  unfold openFile fdLocal2Global
  constructor
  · intro h
    obtain ⟨idx, s1, hglobal, h1⟩ := Prog.bind_eq_ok.1 h
    obtain ⟨⟨⟩, s2, hreq, h2⟩ := Prog.bind_eq_ok.1 hglobal
    obtain ⟨hfd, rfl⟩ := Prog.require_eq_ok.1 hreq
    rw [Prog.bind_of_ok (a := s) (t := s) rfl] at h2
    cases hslot : s.fd_table p fd with
    | none =>
        rw [hslot] at h2
        cases h2
    | some global =>
        rw [hslot] at h2
        obtain ⟨⟨⟩, s3, hassert, h3⟩ := Prog.bind_eq_ok.1 h2
        obtain ⟨hidx, rfl⟩ := Prog.assert_eq_ok.1 hassert
        obtain ⟨rfl, rfl⟩ := Prog.pure_eq_ok.1 h3
        rw [Prog.bind_of_ok (a := s) (t := s) rfl] at h1
        obtain ⟨ino, s4, hopt, h4⟩ := Prog.bind_eq_ok.1 h1
        obtain ⟨hino, rfl⟩ := Prog.ofOption_eq_ok.1 hopt
        obtain ⟨heq, rfl⟩ := Prog.pure_eq_ok.1 h4
        cases heq
        exact ⟨hfd, rfl, hidx, rfl, hino, rfl⟩
  · rintro ⟨hfd, hslot, hidx, rfl, hino, rfl⟩
    rw [Prog.bind_of_ok (a := fd_idx) (t := s')]
    · rw [Prog.bind_of_ok (a := s') (t := s') rfl, hino]
      rfl
    · rw [Prog.run_require_bind hfd, Prog.bind_of_ok (a := s') (t := s') rfl, hslot]
      show (Prog.assert (fd_idx < MAX_FILES_OPEN) >>= _) s' = _
      rw [Prog.run_assert_bind hidx]
      rfl

/-! ## Opening -/

/-- `file_open`: nothing was found, or the table was full, or the inode is in a slot. -/
theorem Rooted.fileOpen (h : Rooted s) (p : P) (path : List Byte) (flag : Nat) :
    (¬ FitsPath path ∧ s.fs.resolve 0 path = none ∧ fileOpen p path flag s = .error .undefined) ∨
      ∃ r t, Found s.fs (s.fs.resolve 0 path) r t ∧
        ((r = none ∧ fileOpen p path flag s = .ok (none, { s with fs := t })) ∨
          ∃ q, r = some q ∧
            ((getFreeSlotInGlobal s = none ∧ fileOpen p path flag s = .ok (none, { s with fs := t })) ∨
              ∃ idx fd fdt, getFreeSlotInGlobal s = some idx ∧ Installed s p idx fd fdt ∧
                fileOpen p path flag s = .ok (fd,
                { s with
                  fs := t
                  file_table := Function.update s.file_table idx ⟨0, flag, some q⟩
                  fd_table := fdt }))) := by
  obtain ⟨m, hm⟩ := h.fs
  unfold Kernel.fileOpen
  rw [Prog.bind_of_ok (a := s) (t := s) rfl, h.cwd]
  obtain ⟨hunfit, hnone, hstop⟩ | ⟨r, t, hfound, hrun⟩ := hm.searchFile path
  · exact .inl ⟨hunfit, hnone, Prog.bind_of_error (run_onFs_error hstop) _⟩
  · refine .inr ⟨r, t, hfound, ?_⟩
    rw [Prog.bind_of_ok (run_onFs hrun)]
    cases r with
    | none => exact .inl ⟨rfl, rfl⟩
    | some q =>
        refine .inr ⟨q, rfl, ?_⟩
        cases hslot : getFreeSlotInGlobal s with
        | none => exact .inl ⟨rfl, rfl⟩
        | some idx =>
            obtain ⟨fd, fdt, hinstall, hfd⟩ := pcbFdInstall_run p idx { s with
              fs := t
              file_table := Function.update s.file_table idx ⟨0, flag, some q⟩ }
            exact .inr ⟨idx, fd, fdt, rfl, ⟨hfd.slot, hfd.bound, hfd.full, hfd.others⟩, hinstall⟩

/-- `file_create`. -/
theorem Rooted.fileCreate (h : Rooted s) (p : P) (path : List Byte) (flag : Nat) :
    (getFreeSlotInGlobal s = none ∧ fileCreate p path flag s = .ok (none, s)) ∨
      ∃ idx m, getFreeSlotInGlobal s = some idx ∧ RootDir s.fs m ∧
        ((¬ FitsPath path ∧ fileCreate p path flag s = .error .undefined) ∨
          (∃ t, fileCreate p path flag s = .ok (none, { s with fs := t }) ∧ RootDir t m ∧
            SameObjects s.fs t ∧ NoRoom s.fs m path) ∨
          ∃ k t fd fdt, Created s.fs m path s.fs.next k t ∧
            Installed s p idx fd fdt ∧ fileCreate p path flag s = .ok (fd,
              { s with
                fs := t
                file_table := Function.update s.file_table idx ⟨0, flag, some s.fs.next⟩
                fd_table := fdt })) := by
  obtain ⟨m, hm⟩ := h.fs
  unfold Kernel.fileCreate
  rw [Prog.bind_of_ok (a := s) (t := s) rfl]
  cases hslot : getFreeSlotInGlobal s with
  | none => exact .inl ⟨rfl, rfl⟩
  | some idx =>
      refine .inr ⟨idx, m, rfl, hm, ?_⟩
      dsimp only
      rw [h.cwd]
      obtain ⟨hunfit, hstop⟩ | ⟨t, hrun, ht, hsame⟩ | ⟨k, t, hrun, hcreated⟩ := hm.create path
      · exact .inl ⟨hunfit, Prog.bind_of_error (run_onFs_error hstop) _⟩
      · refine .inr (.inl ⟨t, ?_, ht, hsame⟩)
        rw [Prog.bind_of_ok (run_onFs hrun)]
        rfl
      · obtain ⟨fd, fdt, hinstall, hfd⟩ := pcbFdInstall_run p idx { s with
          fs := t
          file_table := Function.update s.file_table idx ⟨0, flag, some s.fs.next⟩ }
        refine .inr (.inr ⟨k, t, fd, fdt, hcreated, ⟨hfd.slot, hfd.bound, hfd.full, hfd.others⟩, ?_⟩)
        rw [Prog.bind_of_ok (run_onFs hrun)]
        exact hinstall

/-! ## Unlinking -/

/-- The loop of `sys_unlink` over `file_table`. -/
def clearSlots (file_table : Nat → File) (inode i : Nat) : File :=
  if i < MAX_FILES_OPEN ∧ (file_table i).fd_inode = some inode then
    { file_table i with fd_inode := none }
  else file_table i

omit [DecidableEq P] in
/-- `sys_unlink` up to its `inode_free`. -/
theorem Rooted.unlinkLookUp (h : Rooted s) (p : P) (path : List Byte) :
    (¬ FitsPath path ∧ s.fs.resolve 0 path = none ∧ unlinkLookUp p path s = .error .undefined) ∨
      (s.fs.resolve 0 path = none ∧ ∃ t, Visited s.fs t ∧
        unlinkLookUp p path s = .ok (none, { s with fs := t })) ∨
      ∃ no q u r t, s.fs.resolve 0 path = some no ∧ Found s.fs (some no) (some q) u ∧
        Found s.fs (s.fs.lastNo 0 path) r t ∧
        unlinkLookUp p path s = .ok (r.map fun inode => (s.fs.root_dir_inode, inode),
          { s with fs := t, file_table := clearSlots s.file_table q }) := by
  obtain ⟨m, hm⟩ := h.fs
  unfold Kernel.unlinkLookUp
  rw [Prog.bind_of_ok (a := s) (t := s) rfl, h.cwd]
  obtain ⟨hunfit, hnone, hstop⟩ | ⟨r, t, hfound, hrun⟩ := hm.searchFile path
  · exact .inl ⟨hunfit, hnone, Prog.bind_of_error (run_onFs_error hstop) _⟩
  · rw [Prog.bind_of_ok (run_onFs hrun)]
    cases hres : s.fs.resolve 0 path with
    | none =>
        rw [hres] at hfound
        cases hfound with
        | none hv => exact .inr (.inl ⟨rfl, t, hv, rfl⟩)
    | some no =>
        rw [hres] at hfound
        obtain ⟨q, rfl⟩ : ∃ q, r = some q := by
          cases hfound with
          | root => exact ⟨_, rfl⟩
          | file => exact ⟨_, rfl⟩
        obtain ⟨u, hclose, hv⟩ := hfound.close hm
        let s1 : Kernel P := { s with fs := t, file_table := clearSlots s.file_table q }
        have hclose1 : onFs (inodeClose q) s1 = .ok ((), { s1 with fs := u }) := run_onFs hclose
        have hrest : ∀ res, onFs (deleteLookUp 0 path) { s1 with fs := u } = res →
            (do
              Prog.modify fun s => { s with
                file_table := fun i =>
                  if i < MAX_FILES_OPEN ∧ (s.file_table i).fd_inode = some q then
                    { s.file_table i with fd_inode := none }
                  else s.file_table i }
              onFs (inodeClose q)
              onFs (deleteLookUp 0 path) : Prog (Kernel P) (Option (Nat × Nat))) { s with fs := t } =
              res := by
          rintro res rfl
          rw [Prog.bind_of_ok (a := ()) (t := s1) rfl, Prog.bind_of_ok hclose1]
        obtain ⟨-, hparent, -⟩ | ⟨r, v, hlast, hdelete⟩ := (hv.rootDir hm).deleteLookUp path
        · rw [hv.resolveParent hm] at hparent
          unfold FS.resolve at hres
          rw [hparent] at hres
          cases hres
        · rw [hv.root] at hdelete
          have hlast' : Found s.fs (s.fs.lastNo 0 path) r v := by
            have heq : u.lastNo 0 path = s.fs.lastNo 0 path := by
              unfold FS.lastNo
              rw [hv.resolveParent hm]
              cases hparent : s.fs.resolveParent 0 path with
              | none => rfl
              | some parent =>
                  obtain ⟨d, name⟩ := parent
                  obtain ⟨rfl, -⟩ := hm.resolveParent_some hparent
                  exact hv.lookNo hm _
            exact heq ▸ hlast.visited hv
          exact .inr (.inr ⟨no, q, t, r, v, rfl, hfound, hlast', hrest _ (run_onFs hdelete)⟩)

/-! ## Every call -/

section Step

variable {fd : Nat}

theorem sysClose_eq_ok : sysClose p fd s = .ok ((), s') ↔ 2 < fd ∧ ∃ idx f inode t,
    openFile p fd s = .ok ((idx, f, inode), s) ∧ inodeClose inode s.fs = .ok ((), t) ∧
      s' = { s with
        fs := t
        file_table := Function.update s.file_table idx { f with fd_inode := none }
        fd_table := Function.update s.fd_table p (Function.update (s.fd_table p) fd none) } := by
  unfold sysClose
  constructor
  · intro h
    obtain ⟨⟨⟩, s1, hassert, h1⟩ := Prog.bind_eq_ok.1 h
    obtain ⟨hfd, rfl⟩ := Prog.assert_eq_ok.1 hassert
    obtain ⟨⟨idx, f, inode⟩, s2, hopen, h2⟩ := Prog.bind_eq_ok.1 h1
    obtain ⟨-, -, -, -, -, rfl⟩ := openFile_eq_ok.1 hopen
    obtain ⟨⟨⟩, s3, hclose, h3⟩ := Prog.bind_eq_ok.1 h2
    obtain ⟨t, hclose', rfl⟩ := onFs_eq_ok.1 hclose
    cases h3
    exact ⟨hfd, idx, f, inode, t, hopen, hclose', rfl⟩
  · rintro ⟨hfd, idx, f, inode, t, hopen, hclose, rfl⟩
    rw [Prog.run_assert_bind hfd, Prog.bind_of_ok hopen]
    show (onFs (inodeClose inode) >>= _) s = _
    rw [Prog.bind_of_ok (run_onFs hclose)]
    rfl

theorem Rooted.sysClose (h : Rooted s) (hrun : sysClose p fd s = .ok ((), s')) : Rooted s' := by
  obtain ⟨m, hm⟩ := h.fs
  obtain ⟨-, idx, f, inode, t, -, hclose, rfl⟩ := sysClose_eq_ok.1 hrun
  exact h.congr rfl ⟨m, hm.close hclose⟩

theorem Rooted.sysOpen (h : Rooted s) {flag : Nat} {r : Option Nat}
    (hrun : sysOpen p path flag s = .ok (r, s')) : Rooted s' := by
  obtain ⟨m, hm⟩ := h.fs
  unfold Kernel.sysOpen at hrun
  split at hrun
  · obtain ⟨-, hcreate⟩ | ⟨idx, m', -, hm', ⟨-, hcreate⟩ | ⟨t, hcreate, ht, -⟩ |
      ⟨k, t, fd, fdt, hc, -, hcreate⟩⟩ := h.fileCreate p path flag
    · rw [hcreate] at hrun
      cases hrun
      exact h
    · rw [hcreate] at hrun
      cases hrun
    · rw [hcreate] at hrun
      cases hrun
      exact h.congr rfl ⟨m', ht⟩
    · rw [hcreate] at hrun
      cases hrun
      obtain ⟨l, -, -, ht, -⟩ := hc.linked
      exact h.congr rfl ⟨_, ht⟩
  · obtain ⟨-, -, hopen⟩ | ⟨r, t, hfound, ⟨-, hopen⟩ | ⟨q, -, ⟨-, hopen⟩ | ⟨idx, fd, fdt, -, -, hopen⟩⟩⟩ :=
      h.fileOpen p path flag
    · rw [hopen] at hrun
      cases hrun
    all_goals
      rw [hopen] at hrun
      cases hrun
      exact h.congr rfl ⟨m, hfound.rootDir hm⟩

omit [DecidableEq P] in
/-- `sys_read` moves a position. -/
theorem sysRead_fs {mallocOk : Nat → Bool} {buf : Buf} {count : Nat} {r : Int × Buf}
    (hrun : sysRead p mallocOk fd buf count s = .ok (r, s')) :
    s'.fs = s.fs ∧ s'.cwd_i_no = s.cwd_i_no := by
  unfold Kernel.sysRead at hrun
  obtain ⟨⟨idx, f, inode⟩, s1, hopen, h1⟩ := Prog.bind_eq_ok.1 hrun
  obtain ⟨-, -, -, -, -, rfl⟩ := openFile_eq_ok.1 hopen
  obtain ⟨ret, s2, hread, h2⟩ := Prog.bind_eq_ok.1 h1
  obtain ⟨t, hread', rfl⟩ := onFs_eq_ok.1 hread
  cases h2
  exact ⟨inodeRead_state hread', rfl⟩

omit [DecidableEq P] in
theorem Rooted.sysRead (h : Rooted s) {mallocOk : Nat → Bool} {buf : Buf} {count : Nat} {r : Int × Buf}
    (hrun : sysRead p mallocOk fd buf count s = .ok (r, s')) : Rooted s' := by
  obtain ⟨hfs, hcwd⟩ := sysRead_fs hrun
  exact h.congr hcwd (hfs ▸ h.fs)

omit [DecidableEq P] in
theorem Rooted.sysWrite (h : Rooted s) {buf : Buf} {count : Nat} {r : Int}
    (hreg : (Call.write p fd buf count).Regular s)
    (hrun : sysWrite p fd buf count s = .ok (r, s')) : Rooted s' := by
  obtain ⟨m, hm⟩ := h.fs
  obtain ⟨hcount, hreg⟩ := hreg
  unfold Kernel.sysWrite at hrun
  obtain ⟨⟨idx, f, inode⟩, s1, hopen, h1⟩ := Prog.bind_eq_ok.1 hrun
  obtain ⟨-, -, -, -, -, rfl⟩ := openFile_eq_ok.1 hopen
  obtain ⟨hne, hpos⟩ := hreg idx f inode hopen
  change (if Writable f then _ else _ : Prog (Kernel P) Int) s1 = _ at h1
  split at h1
  · obtain ⟨ret, s2, hwrite, h2⟩ := Prog.bind_eq_ok.1 h1
    obtain ⟨t, hwrite', rfl⟩ := onFs_eq_ok.1 hwrite
    cases h2
    cases hp : s1.fs.inodes inode with
    | none =>
        rw [(inodeWrite_none hp hwrite').2.1]
        exact h.congr rfl h.fs
    | some i => exact h.congr rfl ⟨m, hm.inodeWrite hp hne (hpos i hp) hcount hwrite'⟩
  · cases h1
    exact h

omit [DecidableEq P] in
/-- `sys_lseek` moves a position. -/
theorem sysLseek_fs {offset : Int} {whence : Whence} {r : Int}
    (hrun : sysLseek p fd offset whence s = .ok (r, s')) :
    s'.fs = s.fs ∧ s'.cwd_i_no = s.cwd_i_no := by
  unfold Kernel.sysLseek at hrun
  split at hrun
  · cases hrun
    exact ⟨rfl, rfl⟩
  · obtain ⟨⟨idx, f, inode⟩, s1, hopen, h1⟩ := Prog.bind_eq_ok.1 hrun
    obtain ⟨-, -, -, -, -, rfl⟩ := openFile_eq_ok.1 hopen
    obtain ⟨i, s2, hat, h2⟩ := Prog.bind_eq_ok.1 h1
    obtain ⟨t, hat', rfl⟩ := onFs_eq_ok.1 hat
    obtain ⟨-, rfl⟩ := inodeAt_eq_ok.1 hat'
    -- whatever the new position is
    have hkeep : ∀ (c : Prop) [Decidable c] (new_pos : Int) (f' : File),
        (if c then pure (-1) else do
          setFile idx f'
          pure new_pos : Prog (Kernel P) Int) { s1 with fs := s1.fs } = .ok (r, s') →
          s'.fs = s1.fs ∧ s'.cwd_i_no = s1.cwd_i_no := by
      intro c hc new_pos f' hres
      split at hres
      · cases hres
        exact ⟨rfl, rfl⟩
      · cases hres
        exact ⟨rfl, rfl⟩
    exact hkeep _ _ _ h2

omit [DecidableEq P] in
theorem Rooted.sysLseek (h : Rooted s) {offset : Int} {whence : Whence} {r : Int}
    (hrun : sysLseek p fd offset whence s = .ok (r, s')) : Rooted s' := by
  obtain ⟨hfs, hcwd⟩ := sysLseek_fs hrun
  exact h.congr hcwd (hfs ▸ h.fs)

omit [DecidableEq P] in
/-- What `sys_stat` starts with. -/
theorem Rooted.search_eq_ok {m : Nat} (h : Rooted s) (hm : RootDir s.fs m) {r : Option Nat}
    (hrun : onFs (searchFile (s.cwd_i_no p) path false) s = .ok (r, s')) :
    ∃ t, Found s.fs (s.fs.resolve 0 path) r t ∧ s' = { s with fs := t } := by
  rw [h.cwd] at hrun
  obtain ⟨t, hsearch, rfl⟩ := onFs_eq_ok.1 hrun
  obtain ⟨-, -, hstop⟩ | ⟨r', t', hfound, hsearch'⟩ := hm.searchFile path
  · rw [hstop] at hsearch
    cases hsearch
  · rw [hsearch'] at hsearch
    cases hsearch
    exact ⟨t, hfound, rfl⟩

omit [DecidableEq P] in
/-- `sys_stat` closes what it has found. -/
theorem Rooted.sysStat_cases {m : Nat} (h : Rooted s) (hm : RootDir s.fs m)
    {r : Option (Nat × Nat × Nat)} (hrun : sysStat p path s = .ok (r, s')) :
    ∃ o t, Found s.fs (s.fs.resolve 0 path) o t ∧ (s' = { s with fs := t } ∨
      ∃ inode u, inodeClose inode t = .ok ((), u) ∧ s' = { s with fs := u }) := by
  unfold Kernel.sysStat at hrun
  rw [Prog.bind_of_ok (a := s) (t := s) rfl] at hrun
  obtain ⟨o, s1, hsearch, h1⟩ := Prog.bind_eq_ok.1 hrun
  obtain ⟨t, hfound, rfl⟩ := h.search_eq_ok hm hsearch
  refine ⟨o, t, hfound, ?_⟩
  cases o with
  | none =>
      cases h1
      exact .inl rfl
  | some inode =>
      obtain ⟨i, s2, hat, h2⟩ := Prog.bind_eq_ok.1 h1
      obtain ⟨t2, hat', rfl⟩ := onFs_eq_ok.1 hat
      obtain ⟨-, rfl⟩ := inodeAt_eq_ok.1 hat'
      obtain ⟨⟨⟩, s3, hassert, h3⟩ := Prog.bind_eq_ok.1 h2
      obtain ⟨-, rfl⟩ := Prog.assert_eq_ok.1 hassert
      obtain ⟨⟨⟩, s4, hclose, h4⟩ := Prog.bind_eq_ok.1 h3
      obtain ⟨u, hclose', rfl⟩ := onFs_eq_ok.1 hclose
      cases h4
      exact .inr ⟨inode, u, hclose', rfl⟩

omit [DecidableEq P] in
theorem Rooted.sysStat (h : Rooted s) {r : Option (Nat × Nat × Nat)}
    (hrun : sysStat p path s = .ok (r, s')) : Rooted s' := by
  obtain ⟨m, hm⟩ := h.fs
  obtain ⟨o, t, hfound, rfl | ⟨inode, u, hclose, rfl⟩⟩ := h.sysStat_cases hm hrun
  · exact h.congr rfl ⟨m, hfound.rootDir hm⟩
  · exact h.congr rfl ⟨m, (hfound.rootDir hm).close hclose⟩

omit [DecidableEq P] in
/-- `sys_opendir`: nothing was found, or the root directory was opened, or a file stays open. -/
theorem Rooted.sysOpendir_cases (h : Rooted s) (p : P) (path : List Byte) :
    (¬ FitsPath path ∧ s.fs.resolve 0 path = none ∧
        sysOpendir p path s = .error .undefined) ∨
      (s.fs.resolve 0 path = none ∧ ∃ t, Visited s.fs t ∧
        sysOpendir p path s = .ok (none, { s with fs := t })) ∨
      (s.fs.resolve 0 path = some 0 ∧ ∃ t, Visited s.fs t ∧
        sysOpendir p path s = .ok (some s.fs.root_dir_inode, { s with fs := t })) ∨
      ∃ no q t, s.fs.resolve 0 path = some no ∧ Opened s.fs no q t ∧
        sysOpendir p path s = .ok (none, { s with fs := t }) := by
  obtain ⟨m, hm⟩ := h.fs
  unfold Kernel.sysOpendir
  rw [Prog.bind_of_ok (a := s) (t := s) rfl, h.cwd]
  obtain ⟨hunfit, hnone, hstop⟩ | ⟨r, t, hfound, hsearch⟩ := hm.searchFile path
  · exact .inl ⟨hunfit, hnone, Prog.bind_of_error (run_onFs_error hstop) _⟩
  · refine .inr ?_
    have ht := hfound.rootDir hm
    rw [Prog.bind_of_ok (run_onFs hsearch)]
    generalize hno : s.fs.resolve 0 path = o at hfound
    cases hfound with
    | none hv => exact .inl ⟨rfl, t, hv, rfl⟩
    | root hv =>
        obtain ⟨r, hr, -, htype, -⟩ := ht.object
        rw [hv.root] at hr
        refine .inr (.inl ⟨rfl, t, hv, ?_⟩)
        show (onFs (inodeAt s.fs.root_dir_inode) >>= _) _ = _
        rw [Prog.bind_of_ok (run_onFs (run_inodeAt hr)), if_neg (not_not.2 htype)]
        rfl
    | @file no q _ ho =>
        obtain ⟨j, hj, hjno, -⟩ := ho.object hm
        have htype : j.f_type ≠ FT_DIRECTORY := fun hd => ho.ne_zero (hjno.symm.trans ((ht.type_iff hj).1 hd))
        refine .inr (.inr ⟨no, q, t, rfl, ho, ?_⟩)
        show (onFs (inodeAt q) >>= _) _ = _
        rw [Prog.bind_of_ok (run_onFs (run_inodeAt hj)), if_pos htype]
        rfl

omit [DecidableEq P] in
/-- It leaves open what it has found. -/
theorem Rooted.sysOpendir_found (h : Rooted s) {r : Option Nat}
    (hrun : sysOpendir p path s = .ok (r, s')) : ∃ no q t, Found s.fs no q t ∧ s' = { s with fs := t } := by
  obtain ⟨-, -, hstop⟩ | ⟨-, t, hv, hopen⟩ | ⟨-, t, hv, hopen⟩ | ⟨no, q, t, -, ho, hopen⟩ :=
    h.sysOpendir_cases p path
  · rw [hstop] at hrun
    cases hrun
  · rw [hopen] at hrun
    cases hrun
    exact ⟨none, none, t, .none hv, rfl⟩
  · rw [hopen] at hrun
    cases hrun
    exact ⟨none, none, t, .none hv, rfl⟩
  · rw [hopen] at hrun
    cases hrun
    exact ⟨some no, some q, t, .file ho, rfl⟩

omit [DecidableEq P] in
theorem Rooted.sysOpendir (h : Rooted s) {r : Option Nat}
    (hrun : sysOpendir p path s = .ok (r, s')) : Rooted s' := by
  obtain ⟨m, hm⟩ := h.fs
  obtain ⟨no, q, t, hfound, rfl⟩ := h.sysOpendir_found hrun
  exact h.congr rfl ⟨m, hfound.rootDir hm⟩

omit [DecidableEq P] in
/-- `sys_unlink`: nothing to delete, a file that nobody has open, or an inode that has a reference too
    many. -/
theorem Rooted.sysUnlink_cases {m : Nat} (h : Rooted s) (hm : RootDir s.fs m) (p : P)
    (path : List Byte) :
    (¬ FitsPath path ∧ s.fs.resolve 0 path = none ∧
        ∀ mapped, sysUnlink mapped p path s = .error .undefined) ∨
      (s.fs.resolve 0 path = none ∧ ∃ t, Visited s.fs t ∧
        ∀ mapped, sysUnlink mapped p path s = .ok (-1, { s with fs := t })) ∨
      ∃ no q u, s.fs.resolve 0 path = some no ∧ Found s.fs (some no) (some q) u ∧
        ((s.fs.lastNo 0 path = none ∧ ∃ t, Visited s.fs t ∧ ∀ mapped, sysUnlink mapped p path s =
            .ok (-1, { s with fs := t, file_table := clearSlots s.file_table q })) ∨
          (∃ no' q' v t, s.fs.lastNo 0 path = some no' ∧ no' ≠ 0 ∧ s.fs.openCount no' = 0 ∧
            Found s.fs (some no') (some q') v ∧ Erased (s.fs.file 0) m t ∧
            t.root_dir_inode = s.fs.root_dir_inode ∧
            (∀ p, p ≠ s.fs.root_dir_inode → t.inodes p = Function.update v.inodes q' none p) ∧
            (∀ r k, s.fs.inodes s.fs.root_dir_inode = some r → r.slot s.fs.disk k ≠ 0 →
              t.used (r.slot s.fs.disk k)) ∧
            ∀ mapped, sysUnlink mapped p path s = if mapped = true then
              .ok (0, { s with fs := t, file_table := clearSlots s.file_table q })
              else .error .undefined) ∨
          ∃ no', s.fs.lastNo 0 path = some no' ∧ (no' = 0 ∨ s.fs.openCount no' ≠ 0) ∧
            ∀ mapped, sysUnlink mapped p path s = .error .panic) := by
  unfold Kernel.sysUnlink
  obtain ⟨hunfit, hres, hlook⟩ | ⟨hres, t, hv, hlook⟩ | ⟨no, q, u, r, t, hres, hfound, hlast, hlook⟩ :=
    h.unlinkLookUp p path
  · exact .inl ⟨hunfit, hres, fun mapped => Prog.bind_of_error hlook _⟩
  · refine .inr (.inl ⟨hres, t, hv, fun mapped => ?_⟩)
    rw [Prog.bind_of_ok hlook]
    rfl
  · refine .inr (.inr ⟨no, q, u, hres, hfound, ?_⟩)
    cases hno : s.fs.lastNo 0 path with
    | none =>
        rw [hno] at hlast
        cases hlast with
        | none hv =>
            refine .inl ⟨rfl, t, hv, fun mapped => ?_⟩
            rw [Prog.bind_of_ok hlook]
            rfl
    | some no' =>
        rw [hno] at hlast
        obtain ⟨inode, rfl⟩ : ∃ inode, r = some inode := by
          cases hlast with
          | root => exact ⟨_, rfl⟩
          | file => exact ⟨_, rfl⟩
        obtain ⟨hne, hzero, v, hv, hroot, hinodes, hused, hrun⟩ | ⟨hwhy, hstop⟩ := hm.delete hno hlast
        · refine .inr (.inl ⟨no', inode, t, v, rfl, hne, hzero, hlast, hv, hroot, hinodes, hused,
            fun mapped => ?_⟩)
          rw [Prog.bind_of_ok hlook]
          show (onFs (deleteFound mapped path s.fs.root_dir_inode inode) >>= _) _ = _
          cases mapped with
          | false => rw [Prog.bind_of_error (run_onFs_error (hrun false))]; rfl
          | true => rw [Prog.bind_of_ok (run_onFs (hrun true))]; rfl
        · refine .inr (.inr ⟨no', rfl, hwhy, fun mapped => ?_⟩)
          rw [Prog.bind_of_ok hlook]
          exact Prog.bind_of_error (run_onFs_error (hstop mapped)) _

omit [DecidableEq P] in
theorem Rooted.sysUnlink (h : Rooted s) {mapped : Bool} {r : Int}
    (hrun : sysUnlink mapped p path s = .ok (r, s')) : Rooted s' := by
  obtain ⟨m, hm⟩ := h.fs
  obtain ⟨-, -, hstop⟩ | ⟨-, t, hv, hnone⟩ | ⟨no, q, u, -, -, ⟨-, t, hv, hnone⟩ |
    ⟨no', q', v, t, -, -, -, -, ht, -, -, -, hsome⟩ | ⟨no', -, -, hstop⟩⟩ := h.sysUnlink_cases hm p path
  · rw [hstop] at hrun
    cases hrun
  · rw [hnone] at hrun
    cases hrun
    exact h.congr rfl ⟨m, hv.rootDir hm⟩
  · rw [hnone] at hrun
    cases hrun
    exact h.congr rfl ⟨m, hv.rootDir hm⟩
  · rw [hsome] at hrun
    split at hrun
    · cases hrun
      exact h.congr rfl ⟨m, ht.toRootDir⟩
    · cases hrun
  · rw [hstop] at hrun
    cases hrun

omit [DecidableEq P] in
/-- The loop of `update_inode_open_cnts` keeps what one more reference to an open inode keeps. -/
theorem updateInodeOpenCnts_invariant {I : Kernel P → Prop} {fds : List Nat}
    (hstep : ∀ s q i, I s → s.fs.inodes q = some i →
      I { s with fs := s.fs.setObject q { i with i_open_cnts := i.i_open_cnts + 1 } })
    (h : I s) (hrun : updateInodeOpenCnts p fds s = .ok ((), s')) : I s' := by
  induction fds generalizing s with
  | nil =>
      cases hrun
      exact h
  | cons fd fds ih =>
      unfold Kernel.updateInodeOpenCnts at hrun
      rw [Prog.bind_of_ok (a := s) (t := s) rfl] at hrun
      cases hfd : s.fd_table p fd with
      | none =>
          rw [hfd] at hrun
          exact ih h hrun
      | some global =>
          rw [hfd] at hrun
          obtain ⟨⟨⟩, s1, hassert, h1⟩ := Prog.bind_eq_ok.1 hrun
          obtain ⟨-, rfl⟩ := Prog.assert_eq_ok.1 hassert
          obtain ⟨inode, s2, hopt, h2⟩ := Prog.bind_eq_ok.1 h1
          obtain ⟨-, rfl⟩ := Prog.ofOption_eq_ok.1 hopt
          obtain ⟨i, s3, hat, h3⟩ := Prog.bind_eq_ok.1 h2
          obtain ⟨t, hat', rfl⟩ := onFs_eq_ok.1 hat
          obtain ⟨hp, rfl⟩ := inodeAt_eq_ok.1 hat'
          obtain ⟨⟨⟩, s4, hset, h4⟩ := Prog.bind_eq_ok.1 h3
          obtain ⟨t', hset', rfl⟩ := onFs_eq_ok.1 hset
          rw [setInode_eq_ok.1 hset'] at h4
          exact ih (hstep _ _ _ h hp) h4

omit [DecidableEq P] in
theorem Rooted.updateInodeOpenCnts {fds : List Nat} (h : Rooted s)
    (hrun : updateInodeOpenCnts p fds s = .ok ((), s')) : Rooted s' := by
  refine updateInodeOpenCnts_invariant (fun s q i hs hp => ?_) h hrun
  obtain ⟨m, hm⟩ := hs.fs
  exact hs.congr rfl ⟨m, hm.openCount hp (Nat.succ_pos i.i_open_cnts)⟩

theorem Rooted.sysFork {child : P} (h : Rooted s) (hrun : sysFork p child s = .ok ((), s')) :
    Rooted s' := by
  refine Rooted.updateInodeOpenCnts (s := { s with
    fd_table := Function.update s.fd_table child (s.fd_table p)
    cwd_i_no := Function.update s.cwd_i_no child (s.cwd_i_no p)
    live := Function.update s.live child true }) ⟨h.fs, fun p' => ?_⟩ hrun
  show Function.update s.cwd_i_no child (s.cwd_i_no p) p' = 0
  by_cases hp : p' = child
  · rw [hp, Function.update_self, h.cwd]
  · rw [Function.update_of_ne hp, h.cwd]

/-- The loop of `release_prog_resource` keeps what `sys_close` keeps. -/
theorem closeAll_invariant {I : Kernel P → Prop} {fds : List Nat}
    (hstep : ∀ fd s s', I s → sysClose p fd s = .ok ((), s') → I s') (h : I s)
    (hrun : closeAll p fds s = .ok ((), s')) : I s' := by
  induction fds generalizing s with
  | nil =>
      cases hrun
      exact h
  | cons fd fds ih =>
      unfold Kernel.closeAll at hrun
      rw [Prog.bind_of_ok (a := s) (t := s) rfl] at hrun
      split at hrun
      · obtain ⟨⟨⟩, s1, hclose, h1⟩ := Prog.bind_eq_ok.1 hrun
        exact ih (hstep _ _ _ h hclose) h1
      · exact ih h hrun

theorem Rooted.closeAll {fds : List Nat} (h : Rooted s) (hrun : closeAll p fds s = .ok ((), s')) :
    Rooted s' :=
  closeAll_invariant (fun _ _ _ hs hclose => hs.sysClose hclose) h hrun

theorem Rooted.step {c : Call P} (h : Rooted s) (hstep : c.Step s s') : Rooted s' := by
  obtain ⟨hreg, hrun⟩ := hstep
  cases c with
  | «open» p pathname flag =>
      obtain ⟨r, hcall⟩ := drop_eq_ok hrun
      exact h.sysOpen hcall
  | close p fd => exact h.sysClose hrun
  | read p mallocOk fd buf count =>
      obtain ⟨r, hcall⟩ := drop_eq_ok hrun
      exact h.sysRead hcall
  | write p fd buf count =>
      obtain ⟨r, hcall⟩ := drop_eq_ok hrun
      exact h.sysWrite hreg hcall
  | lseek p fd offset whence =>
      obtain ⟨r, hcall⟩ := drop_eq_ok hrun
      exact h.sysLseek hcall
  | stat p path =>
      obtain ⟨r, hcall⟩ := drop_eq_ok hrun
      exact h.sysStat hcall
  | opendir p path =>
      obtain ⟨r, hcall⟩ := drop_eq_ok hrun
      exact h.sysOpendir hcall
  | unlink mapped p pathname =>
      obtain ⟨r, hcall⟩ := drop_eq_ok hrun
      exact h.sysUnlink hcall
  | fork p child => exact h.sysFork hrun
  | exit p =>
      obtain ⟨⟨⟩, s1, hclose, h1⟩ := Prog.bind_eq_ok.1 hrun
      cases h1
      exact (h.closeAll hclose).congr rfl (h.closeAll hclose).fs

end Step

omit [DecidableEq P] in
theorem Booted.rooted (h : Booted s) : Rooted s := by
  obtain ⟨part, disk, hmounted⟩ := h.mounted
  exact ⟨⟨2, rootDir_boot hmounted⟩, h.cwd_i_no⟩

/-- The root directory of every state that calls lead to is what it should be. -/
theorem Reached.rooted (h : Reached s) : Rooted s := by
  obtain ⟨s0, cs, hboot, hrun⟩ := h
  exact hrun.invariant (fun _ _ _ hI hstep => hI.step hstep) hboot.rooted

end Kernel

end RecoverOS
