import RecoverOS.Fs.Proofs.Root

set_option autoImplicit false

/-! # Deleting what a path leads to

`inode_free` first, then the close of the inode that was freed, then `dir_unlink`, which opens the inode
once more by the number that is still in the entry. -/

namespace RecoverOS

section Unlink

variable {s t : FS} {m k p q : Nat} {j : Inode} {path name : List Byte} {bytes : Buf}

/-- The entries but one name allocated inodes, the one a number that is free. -/
structure Dangling (s : FS) (m k : Nat) (bytes : Buf) : Prop where
  dir : IsDir s s.root_dir_inode m bytes
  only : ∀ no, s.allocated no → (s.record no).f_type = FT_DIRECTORY → no = 0
  slot : k < m
  closed : s.findInode (entryNo (bytes.from (32 * k))) = none
  no_lt : entryNo (bytes.from (32 * k)) < 4096
  links : Links (fun no => s.allocated no ∨ no = entryNo (bytes.from (32 * k))) m bytes
  root : s.allocated 0
  named : entryNo (bytes.from (32 * k)) ≠ 0

/-- The root directory once the entry of what was deleted is erased. -/
structure Erased (bytes : Buf) (m : Nat) (t : FS) : Prop extends RootDir t m where
  file : ∃ k < m, ∀ a < 32 * m, t.file 0 a = bytes.patch (32 * k) 32 Buf.zero a

/-- `dir_unlink` of that entry reads the inode once more and drops its object again, and then writes. -/
theorem Dangling.dirUnlink_eq (h : Dangling s m k bytes) (hlen : name.length < MAX_FILE_NAME_LEN)
    (hfind : findEntry (strcmpEq name) bytes m 0 = some (32 * k)) :
    RecoverOS.dirUnlink s.root_dir_inode name s = (do
      let _ ← RecoverOS.inodeWrite s.root_dir_inode Buf.zero sizeofDirEntry (32 * k)
      pure true : Prog FS Bool) { s with next := s.next + 1 } := by
  obtain ⟨i, hp, -⟩ := h.dir.object
  have hfresh : ∀ a, s.inodes a = some i → a < s.next := fun a => h.dir.inv.table.fresh a i
  have hroot : s.next ≠ s.root_dir_inode := (Nat.ne_of_lt (hfresh _ hp)).symm
  have hfree : s.inodes s.next = none := h.dir.inv.table.next_none
  have hopen := inodeOpen_new h.closed h.no_lt
  have hself : (s.loadInode (entryNo (bytes.from (32 * k)))).inodes s.next =
      some (s.opened (entryNo (bytes.from (32 * k)))) := Function.update_self ..
  have hclose : inodeClose s.next (s.loadInode (entryNo (bytes.from (32 * k)))) =
      .ok ((), { s with next := s.next + 1 }) := by
    rw [inodeClose_last (s := s.loadInode (entryNo (bytes.from (32 * k)))) hroot hself rfl]
    unfold FS.dropInode FS.loadInode
    dsimp only
    rw [Function.update_idem, List.erase_cons_head, Nat.add_sub_cancel, ← hfree,
      Function.update_eq_self]
  have hlook : RecoverOS.dirLookUp s.root_dir_inode name s =
      .ok (some (s.next, 32 * k), s.loadInode (entryNo (bytes.from (32 * k)))) := by
    rw [h.dir.dirLookUp (Nat.lt_trans hlen (by decide)), hfind]
    show (inodeOpen _ >>= _) s = _
    rw [Prog.bind_of_ok hopen]
    rfl
  unfold RecoverOS.dirUnlink
  rw [Prog.bind_of_ok hlook]
  show (inodeClose s.next >>= _) _ = _
  rw [Prog.bind_of_ok hclose]

/-- The directory that is written then. -/
theorem Dangling.isDir (h : Dangling s m k bytes) : IsDir { s with next := s.next + 1 } s.root_dir_inode m bytes := by
  obtain ⟨i, hp, htype, hsize, hbytes⟩ := h.dir.object
  exact ⟨h.dir.inv.next 1, h.dir.covered, i, hp, htype, hsize, hbytes⟩

/-- `dir_unlink` of that entry. -/
theorem Dangling.dirUnlink (h : Dangling s m k bytes) (hlen : name.length < MAX_FILE_NAME_LEN)
    (hfind : findEntry (strcmpEq name) bytes m 0 = some (32 * k)) :
    ∃ t, dirUnlink s.root_dir_inode name s = .ok (true, t) ∧ Erased bytes m t ∧ SameObjects s t ∧
      ∀ b, s.used b → t.used b := by
  obtain ⟨r, t, hwrite, htroot, hbm, hother, hone, hused, hres⟩ :=
    IsDir.write_root (s := { s with next := s.next + 1 }) h.isDir h.only (Nat.le_of_lt h.slot) Buf.zero
  have hdir : IsDir t t.root_dir_inode m (bytes.patch (32 * k) 32 Buf.zero) := by
    rcases hres with ⟨-, hdir⟩ | ⟨-, heq, -⟩
    · rwa [Nat.max_eq_left (Nat.succ_le_of_lt h.slot)] at hdir
    · exact absurd heq (Nat.ne_of_lt h.slot)
  refine ⟨t, ?_, ?_, ⟨htroot, hother⟩, hused⟩
  · rw [h.dirUnlink_eq hlen hfind, Prog.bind_of_ok hwrite]
    rfl
  · have ha : ∀ no, s.allocated no → t.allocated no := fun no => (FS.allocated_congr hbm).2
    have hother : ∀ l < m, l ≠ k → t.allocated (entryNo (bytes.from (32 * l))) := by
      intro l hl hlk
      rcases h.links.ok l hl with hok | heq
      · exact ha _ hok
      · exact absurd (h.links.once k h.slot l hl heq.symm h.named).symm hlk
    have hlinks : Links t.allocated (max m (k + 1)) (bytes.patch (32 * k) 32 Buf.zero) :=
      h.links.put (Nat.le_of_lt h.slot) hother (ha 0 h.root) (fun _ => rfl) fun hne => absurd rfl hne
    rw [Nat.max_eq_left (Nat.succ_le_of_lt h.slot)] at hlinks
    exact ⟨RootDir.of_dir hdir hlinks hone, k, h.slot, fun a ha => hdir.file_zero ha⟩

/-- What `inode_free` leaves for `dir_unlink`. -/
theorem RootDir.dangling (h : RootDir s m) (hp : s.inodes p = some j) (hne : p ≠ s.root_dir_inode)
    (hcnt : j.i_open_cnts = 1) (hlook : s.lookNo 0 name = some j.i_no) (hrun : inodeFree p s = .ok ((), t)) :
    ∃ k, Dangling t m k (s.file 0) ∧ findEntry (strcmpEq name) (s.file 0) m 0 = some (32 * k) := by
  obtain ⟨u, hrun', hinv, hbm, -, -, -, hcopies⟩ := inodeFree_run h.dir.inv hp hne hcnt
  rw [hrun] at hrun'
  cases hrun'
  obtain ⟨hframe, hinodes, -⟩ := RootFrame.inodeFree h hp hne hcnt hrun
  have hcov : Covered t := covered_of_copies h.dir.covered fun no i hc =>
    .inr ⟨i, (hcopies no i hc).1, Nat.le_refl _, Inode.blocks_of_slot (hcopies no i hc).2⟩
  obtain ⟨k, hk, hfind, hno, ha⟩ := h.lookNo_some hlook
  obtain ⟨r, hr, hr0, -⟩ := h.object
  have hne0 : j.i_no ≠ 0 := fun h0 =>
    hne (h.dir.inv.table.one_object _ _ _ _ hp hr (h0.trans hr0.symm))
  have hkept : ∀ no, s.allocated no → no ≠ j.i_no → t.allocated no := by
    rintro no ⟨hlt, hset⟩ hno'
    refine ⟨hlt, ?_⟩
    rw [hbm, bitmapRead_bitmapSet]
    simp [hno', hset]
  have hclosed : t.findInode j.i_no = none := by
    cases hfind : t.findInode j.i_no with
    | none => rfl
    | some q =>
        obtain ⟨-, i, hq, hi⟩ := FS.findInode_some hfind
        rw [hinodes] at hq
        by_cases hqp : q = p
        · subst hqp
          rw [Function.update_self] at hq
          cases hq
        · rw [Function.update_of_ne hqp] at hq
          exact absurd (h.dir.inv.table.one_object _ _ _ _ hq hp hi) hqp
  exact ⟨k,
    { dir := hframe.isDir h hinv hcov
      only := hframe.only h
      slot := hk
      closed := hno ▸ hclosed
      no_lt := hno ▸ ha.1
      links := h.links.mono fun l _ hl => by
        by_cases heq : entryNo ((s.file 0).from (32 * l)) = j.i_no
        · exact .inr (heq.trans hno.symm)
        · exact .inl (hkept _ hl heq)
      root := hkept 0 h.allocated_zero hne0.symm
      named := hno ▸ hne0 }, hfind⟩

/-- `delete_file_or_directory` from `inode_free` on, with an inode that has one reference. -/
theorem RootDir.deleteFound (h : RootDir s m) (hp : s.inodes p = some j)
    (hne : p ≠ s.root_dir_inode) (hcnt : j.i_open_cnts = 1)
    (hlen : (lastName path).length < MAX_FILE_NAME_LEN)
    (hlook : s.lookNo 0 (lastName path) = some j.i_no) :
    ∃ t, Erased (s.file 0) m t ∧ t.root_dir_inode = s.root_dir_inode ∧
      (∀ q, q ≠ s.root_dir_inode → t.inodes q = Function.update s.inodes p none q) ∧
      (∀ b, s.used b → (∀ k, j.blocks s.disk k ≠ b) → t.used b) ∧
      ∀ mapped, deleteFound mapped path s.root_dir_inode p s =
        if mapped = true then .ok ((), t) else .error .undefined := by
  obtain ⟨u, hrun, -, -, -, -, hused, -⟩ := inodeFree_run h.dir.inv hp hne hcnt
  obtain ⟨hframe, hinodes, -⟩ := RootFrame.inodeFree h hp hne hcnt hrun
  obtain ⟨k, hdang, hfind⟩ := h.dangling hp hne hcnt hlook hrun
  obtain ⟨t, hunlink, ht, hsame, husedt⟩ := hdang.dirUnlink hlen hfind
  refine ⟨t, ht, hsame.root.trans hframe.root, fun q hq => ?_, fun b hb hne => ?_, fun mapped => ?_⟩
  · rw [hsame.inodes q (hframe.root ▸ hq), hinodes]
  · exact husedt b ((hused b).2 ⟨hb, fun k _ heq => hne k heq.symm⟩)
  · unfold RecoverOS.deleteFound
    rw [Prog.bind_of_ok hrun]
    cases mapped with
    | false => rfl
    | true =>
        rw [hframe.root] at hunlink
        show (RecoverOS.dirUnlink s.root_dir_inode (lastName path) >>= _) u = _
        rw [Prog.bind_of_ok hunlink]
        rfl

end Unlink

end RecoverOS
