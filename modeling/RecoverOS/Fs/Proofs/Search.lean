import RecoverOS.Fs.Path
import RecoverOS.Fs.Proofs.Names

set_option autoImplicit false

/-! # `search_file` follows the path

A search takes references to the root, which is never closed, and gives the others back; so it leaves
the root's open count higher, heap addresses used up, and nothing else changed. -/

namespace RecoverOS

/-! ## What a search leaves -/

/-- From `s` to `t` references to the root were taken and heap addresses used up. -/
def Visited (s t : FS) : Prop := ∃ r a b, s.inodes s.root_dir_inode = some r ∧
  t = { s.setObject s.root_dir_inode { r with i_open_cnts := r.i_open_cnts + a } with
    next := s.next + b }

theorem Inv.next {s : FS} (h : Inv s) (n : Nat) : Inv { s with next := s.next + n } where
  geometry := h.geometry.congr rfl rfl rfl
  table :=
    { nodup := h.table.nodup
      mem_iff := h.table.mem_iff
      fresh := fun p i hp => Nat.lt_of_lt_of_le (h.table.fresh p i hp) (Nat.le_add_right _ _)
      one_object := h.table.one_object
      counted := h.table.counted
      root := h.table.root }
  open_allocated := h.open_allocated
  fits := h.fits
  synced := h.synced
  recorded := h.recorded
  sized := h.sized
  exclusive := h.exclusive

namespace Visited

variable {s t u : FS} {m no : Nat}

/-- Heap addresses alone. -/
theorem of_next {r : Inode} (hr : s.inodes s.root_dir_inode = some r) (b : Nat) :
    Visited s { s with next := s.next + b } := by
  refine ⟨r, 0, b, hr, ?_⟩
  have hsame : Function.update s.inodes s.root_dir_inode (some r) = s.inodes := by
    rw [← hr]
    exact Function.update_eq_self _ _
  show _ = ({ s with
    inodes := Function.update s.inodes s.root_dir_inode (some r), next := s.next + b } : FS)
  rw [hsame]

theorem refl {r : Inode} (hr : s.inodes s.root_dir_inode = some r) : Visited s s := of_next hr 0

theorem trans (h : Visited s t) (h' : Visited t u) : Visited s u := by
  obtain ⟨r, a, b, hr, rfl⟩ := h
  obtain ⟨r', a', b', hr', rfl⟩ := h'
  have hself : Function.update s.inodes s.root_dir_inode
      (some { r with i_open_cnts := r.i_open_cnts + a }) s.root_dir_inode = some r' := hr'
  rw [Function.update_self] at hself
  cases hself
  refine ⟨r, a + a', b + b', hr, ?_⟩
  show ({ s with
    inodes := Function.update (Function.update s.inodes s.root_dir_inode _) s.root_dir_inode _
    next := s.next + b + b' } : FS) = { s with
    inodes := Function.update s.inodes s.root_dir_inode _, next := s.next + (b + b') }
  rw [Function.update_idem, Nat.add_assoc, Nat.add_assoc]

theorem root (h : Visited s t) : t.root_dir_inode = s.root_dir_inode := by
  obtain ⟨r, a, b, -, rfl⟩ := h
  rfl

theorem inode_bitmap (h : Visited s t) : t.inode_bitmap = s.inode_bitmap := by
  obtain ⟨r, a, b, -, rfl⟩ := h
  rfl

theorem block_bitmap (h : Visited s t) : t.block_bitmap = s.block_bitmap := by
  obtain ⟨r, a, b, -, rfl⟩ := h
  rfl

theorem sb (h : Visited s t) : t.sb = s.sb := by
  obtain ⟨r, a, b, -, rfl⟩ := h
  rfl

theorem disk (h : Visited s t) : t.disk = s.disk := by
  obtain ⟨r, a, b, -, rfl⟩ := h
  rfl

theorem used_iff (h : Visited s t) (b : Nat) : t.used b ↔ s.used b := FS.used_congr h.sb h.block_bitmap b

theorem rootDir (h : Visited s t) (hs : RootDir s m) : RootDir t m := by
  obtain ⟨r, a, b, hr, rfl⟩ := h
  have hpos := hs.dir.inv.table.counted _ _ hr
  have hd := hs.dir.openCount hr (Nat.lt_of_lt_of_le hpos (Nat.le_add_right _ a))
  exact RootDir.of_dir ⟨hd.inv.next b, hd.covered, hd.object⟩ hs.links hs.only

theorem findInode_eq (h : Visited s t) (no : Nat) : t.findInode no = s.findInode no := by
  obtain ⟨r, a, b, hr, rfl⟩ := h
  unfold FS.findInode
  show List.find? _ s.open_inodes = List.find? _ s.open_inodes
  congr 1
  funext p
  unfold FS.setObject
  dsimp only
  by_cases hp : p = s.root_dir_inode
  · rw [hp, Function.update_self, hr]
  · rw [Function.update_of_ne hp]

/-- The open count of a file. -/
theorem openCount (h : Visited s t) (hs : s.OpenTable) (hne : no ≠ 0) :
    t.openCount no = s.openCount no := by
  unfold FS.openCount FS.objectOf
  rw [h.findInode_eq]
  cases hfind : s.findInode no with
  | none => rfl
  | some p =>
      obtain ⟨-, i, hp, hno⟩ := FS.findInode_some hfind
      have hpr : p ≠ s.root_dir_inode := by
        rintro rfl
        obtain ⟨r, hr, hr0⟩ := hs.root
        rw [hp] at hr
        cases hr
        exact hne (hno.symm.trans hr0)
      obtain ⟨r, a, b, -, rfl⟩ := h
      show ((Function.update s.inodes s.root_dir_inode _ p).map _).getD 0 = ((s.inodes p).map _).getD 0
      rw [Function.update_of_ne hpr]

theorem file_zero (h : Visited s t) (hs : RootDir s m) : t.file 0 = s.file 0 := by
  obtain ⟨r, -, hr0, -, -, hcopy⟩ := hs.object
  obtain ⟨r', hr', hr0', -, -, hcopy'⟩ := (h.rootDir hs).object
  unfold FS.file
  rw [hcopy, hcopy']
  obtain ⟨r0, a, b, hr, rfl⟩ := h
  have hself : Function.update s.inodes s.root_dir_inode
      (some { r0 with i_open_cnts := r0.i_open_cnts + a }) s.root_dir_inode = some r' := hr'
  rw [Function.update_self] at hself
  cases hself
  have hcopy0 := copyOf_object hs.dir.inv.table hr
  rw [show r0.i_no = 0 from hr0', hcopy] at hcopy0
  rw [hcopy0]
  rfl

theorem lookNo (h : Visited s t) (hs : RootDir s m) (name : List Byte) :
    t.lookNo 0 name = s.lookNo 0 name :=
  hs.lookNo_congr (h.rootDir hs) (h.file_zero hs) name

theorem walk (h : Visited s t) (hs : RootDir s m) (n : Nat) (path : List Byte) :
    t.walk n 0 path = s.walk n 0 path :=
  hs.walk_congr (h.rootDir hs) (h.lookNo hs)

theorem resolveParent (h : Visited s t) (hs : RootDir s m) (path : List Byte) :
    t.resolveParent 0 path = s.resolveParent 0 path :=
  hs.resolveParent_congr (h.rootDir hs) (h.lookNo hs)

end Visited

/-- The root has more than one reference. -/
def RootShared (s : FS) : Prop := ∃ r, s.inodes s.root_dir_inode = some r ∧ 1 < r.i_open_cnts

theorem Visited.shared {s t : FS} (h : Visited s t) (hs : RootShared s) : RootShared t := by
  obtain ⟨r, a, b, hr, rfl⟩ := h
  obtain ⟨r', hr', hcnt⟩ := hs
  rw [hr] at hr'
  cases hr'
  exact ⟨_, Function.update_self .., Nat.lt_of_lt_of_le hcnt (Nat.le_add_right _ a)⟩

/-! ## Opening an inode and giving it back -/

section Open

variable {s t u : FS} {m no q : Nat}

theorem RootDir.open_root (h : RootDir s m) :
    ∃ t, inodeOpen 0 s = .ok (s.root_dir_inode, t) ∧ Visited s t ∧ RootShared t := by
  obtain ⟨r, hr, hno, -⟩ := h.object
  have hfind := FS.findInode_of_object h.dir.inv.table hr
  have hpos := h.dir.inv.table.counted _ _ hr
  rw [hno] at hfind
  exact ⟨_, inodeOpen_found hfind hr, ⟨r, 1, 0, hr, rfl⟩, _, Function.update_self ..,
    Nat.succ_lt_succ hpos⟩

/-- The inode `no` that a search found, with the reference it took. -/
structure Opened (s : FS) (no q : Nat) (t : FS) : Prop where
  ne_zero : no ≠ 0
  allocated : s.allocated no
  run : ∃ u, Visited s u ∧ inodeOpen no u = .ok (q, t)

theorem Opened.visited (h : Opened u no q t) (hv : Visited s u) : Opened s no q t := by
  obtain ⟨v, hv', hrun⟩ := h.run
  exact ⟨h.ne_zero, (FS.allocated_congr hv.inode_bitmap).1 h.allocated, v, hv.trans hv', hrun⟩

/-- The counts of inodes whose objects are the same are the same. -/
theorem openCount_congr (hs : s.OpenTable) (ht : t.OpenTable)
    (h : ∀ p i, i.i_no = no → (t.inodes p = some i ↔ s.inodes p = some i)) :
    t.openCount no = s.openCount no := by
  have hobj : t.objectOf no = s.objectOf no := by
    cases hs' : s.objectOf no with
    | none =>
        refine (objectOf_eq_none ht).2 fun p i hp hno => ?_
        exact (objectOf_eq_none hs).1 hs' p i ((h p i hno).1 hp) hno
    | some i =>
        obtain ⟨p, hp, hno⟩ := (objectOf_eq_some hs).1 hs'
        exact (objectOf_eq_some ht).2 ⟨p, (h p i hno).2 hp, hno⟩
  unfold FS.openCount
  rw [hobj]

theorem openCount_none (ht : s.OpenTable) (h : s.findInode no = none) : s.openCount no = 0 := by
  unfold FS.openCount
  rw [(objectOf_eq_none ht).2 fun p i hp => FS.findInode_none ht h hp]
  rfl

/-- What opening an inode other than the root does. -/
structure OpenedOne (s : FS) (no q : Nat) (t : FS) : Prop where
  ne_root : q ≠ s.root_dir_inode
  object : ∃ j, t.inodes q = some j ∧ j.i_no = no ∧ j.i_open_cnts = s.openCount no + 1
  others : ∀ p ≠ q, t.inodes p = s.inodes p
  was : s.inodes q = none ∨ ∃ j, s.inodes q = some j ∧ j.i_no = no
  disk : t.disk = s.disk
  sb : t.sb = s.sb
  block_bitmap : t.block_bitmap = s.block_bitmap
  inode_bitmap : t.inode_bitmap = s.inode_bitmap
  root : t.root_dir_inode = s.root_dir_inode

theorem RootDir.openedOne (h : RootDir s m) (hne : no ≠ 0) (ha : s.allocated no)
    (hrun : inodeOpen no s = .ok (q, t)) : OpenedOne s no q t := by
  obtain ⟨r, hr, hr0, -⟩ := h.object
  rcases inodeOpen_cases ha with ⟨p, j, hp, hno, hopen⟩ | ⟨hnone, hopen⟩
  · rw [hopen] at hrun
    cases hrun
    have hroot : q ≠ s.root_dir_inode := by
      rintro rfl
      rw [hr] at hp
      cases hp
      exact hne (hno.symm.trans hr0)
    refine ⟨hroot, ⟨_, Function.update_self .., hno, ?_⟩, fun p' hp' => Function.update_of_ne hp' _ _,
      .inr ⟨j, hp, hno⟩, rfl, rfl, rfl, rfl, rfl⟩
    rw [← hno, openCount_object h.dir.inv.table hp]
  · rw [hopen] at hrun
    cases hrun
    have hfree : s.inodes s.next = none := h.dir.inv.table.next_none
    refine ⟨fun heq => ?_, ⟨s.opened no, Function.update_self .., h.dir.inv.recorded no ha, ?_⟩,
      fun p' hp' => Function.update_of_ne hp' _ _, .inl hfree, rfl, rfl, rfl, rfl, rfl⟩
    · rw [heq, hr] at hfree
      cases hfree
    · rw [openCount_none h.dir.inv.table hnone]
      rfl

/-- Closing it again takes all of it back. -/
theorem RootDir.close_opened (h : RootDir s m) (hne : no ≠ 0) (ha : s.allocated no)
    (hrun : inodeOpen no s = .ok (q, t)) : ∃ u, inodeClose q t = .ok ((), u) ∧ Visited s u := by
  obtain ⟨r, hr, hr0, -⟩ := h.object
  have hq := (h.openedOne hne ha hrun).ne_root
  rcases inodeOpen_cases ha with ⟨p, j, hp, hno, hopen⟩ | ⟨hnone, hopen⟩
  · rw [hopen] at hrun
    cases hrun
    have hpos := h.dir.inv.table.counted q j hp
    have hself : (s.setObject q { j with i_open_cnts := j.i_open_cnts + 1 }).inodes q =
        some { j with i_open_cnts := j.i_open_cnts + 1 } := Function.update_self ..
    refine ⟨s, ?_, .refl hr⟩
    rw [inodeClose_more (s := s.setObject q { j with i_open_cnts := j.i_open_cnts + 1 }) hq hself
      (Nat.ne_of_gt (Nat.succ_lt_succ hpos))]
    unfold FS.setObject
    dsimp only
    rw [Function.update_idem, Nat.add_sub_cancel, show ({ j with } : Inode) = j from rfl, ← hp,
      Function.update_eq_self]
  · rw [hopen] at hrun
    cases hrun
    have hfree : s.inodes s.next = none := h.dir.inv.table.next_none
    have hself : (s.loadInode no).inodes s.next = some (s.opened no) := Function.update_self ..
    refine ⟨{ s with next := s.next + 1 }, ?_, .of_next hr 1⟩
    rw [inodeClose_last (s := s.loadInode no) hq hself rfl]
    unfold FS.dropInode FS.loadInode
    dsimp only
    rw [Function.update_idem, List.erase_cons_head, Nat.add_sub_cancel, ← hfree, Function.update_eq_self]

/-- Opening an inode leaves the directories as they are. -/
theorem RootDir.after_open (h : RootDir s m) (ha : s.allocated no)
    (hrun : inodeOpen no s = .ok (q, t)) (hroot : t.root_dir_inode = s.root_dir_inode)
    (hdisk : t.disk = s.disk) (hsb : t.sb = s.sb) : RootDir t m := by
  obtain ⟨q', j, t', hrun', hdir, -, -, hbm, -⟩ := h.dir.inodeOpen ha
  rw [hrun] at hrun'
  cases hrun'
  rw [← hroot] at hdir
  refine RootDir.of_dir hdir (h.links.mono fun k _ => (FS.allocated_congr hbm).2) fun no' ha' htype => ?_
  have hrec : t.record no' = s.record no' := by
    unfold FS.record FS.recordAddr
    rw [hdisk, hsb]
  rw [hrec] at htype
  exact h.only no' ((FS.allocated_congr hbm).1 ha') htype

/-- An open inode is a directory only if it is the root. -/
theorem RootDir.type_iff (h : RootDir s m) {j : Inode} (hq : s.inodes q = some j) :
    j.f_type = FT_DIRECTORY ↔ j.i_no = 0 := by
  have hd := h.isDirectory_iff (h.dir.inv.open_allocated q j hq)
  unfold FS.IsDirectory at hd
  rwa [copyOf_object h.dir.inv.table hq] at hd

theorem Opened.openedOne (h : Opened s no q t) (hs : RootDir s m) :
    ∃ u, Visited s u ∧ OpenedOne u no q t ∧ RootDir t m := by
  obtain ⟨u, hv, hrun⟩ := h.run
  have hu := hv.rootDir hs
  have ha := (FS.allocated_congr hv.inode_bitmap).2 h.allocated
  have hone := hu.openedOne h.ne_zero ha hrun
  exact ⟨u, hv, hone, hu.after_open ha hrun hone.root hone.disk hone.sb⟩

theorem Opened.close (h : Opened s no q t) (hs : RootDir s m) :
    ∃ u, inodeClose q t = .ok ((), u) ∧ Visited s u := by
  obtain ⟨u, hv, hrun⟩ := h.run
  have ha := (FS.allocated_congr hv.inode_bitmap).2 h.allocated
  obtain ⟨v, hclose, hv'⟩ := (hv.rootDir hs).close_opened h.ne_zero ha hrun
  exact ⟨v, hclose, hv.trans hv'⟩

end Open

/-! ## Looking up a name in the root directory -/

section LookUp

variable {s : FS} {m no : Nat} {name : List Byte}

theorem RootDir.dirLookUp_none (h : RootDir s m) (hlen : name.length < MAX_FILE_NAME_LEN)
    (hlook : s.lookNo 0 name = none) : dirLookUp s.root_dir_inode name s = .ok (none, s) := by
  rw [h.lookNo_eq, Option.map_eq_none_iff] at hlook
  rw [h.dir.dirLookUp (Nat.lt_trans hlen (by decide)), hlook]

theorem RootDir.dirLookUp_some (h : RootDir s m) (hlen : name.length < MAX_FILE_NAME_LEN)
    (hlook : s.lookNo 0 name = some no) :
    ∃ off, ∀ q t, inodeOpen no s = .ok (q, t) →
      dirLookUp s.root_dir_inode name s = .ok (some (q, off), t) := by
  obtain ⟨k, -, hfind, hno, -⟩ := h.lookNo_some hlook
  refine ⟨32 * k, fun q t hrun => ?_⟩
  rw [h.dir.dirLookUp (Nat.lt_trans hlen (by decide)), hfind]
  show (inodeOpen (entryNo ((s.file 0).from (32 * k))) >>= _) s = _
  rw [hno, Prog.bind_of_ok hrun]
  rfl

theorem RootDir.dirLookUp_root (h : RootDir s m) (hlen : name.length < MAX_FILE_NAME_LEN)
    (hlook : s.lookNo 0 name = some 0) : ∃ off t, Visited s t ∧ RootShared t ∧
      dirLookUp s.root_dir_inode name s = .ok (some (s.root_dir_inode, off), t) := by
  obtain ⟨off, hrun⟩ := h.dirLookUp_some hlen hlook
  obtain ⟨t, hopen, hv, hshared⟩ := h.open_root
  exact ⟨off, t, hv, hshared, hrun _ _ hopen⟩

theorem RootDir.dirLookUp_file (h : RootDir s m) (hlen : name.length < MAX_FILE_NAME_LEN)
    (hlook : s.lookNo 0 name = some no) (hne : no ≠ 0) : ∃ off q t, Opened s no q t ∧
      dirLookUp s.root_dir_inode name s = .ok (some (q, off), t) := by
  obtain ⟨off, hrun⟩ := h.dirLookUp_some hlen hlook
  obtain ⟨-, -, -, -, ha⟩ := h.lookNo_some hlook
  obtain ⟨q, j, t, hopen, -⟩ := h.dir.inodeOpen ha
  obtain ⟨r, hr, -⟩ := h.object
  exact ⟨off, q, t, ⟨hne, ha, s, .refl hr, hopen⟩, hrun _ _ hopen⟩

/-- What a search that leads to an inode number returns, and the state it leaves. -/
inductive Found (s : FS) : Option Nat → Option Nat → FS → Prop where
  | none {t : FS} (h : Visited s t) : Found s none none t
  | root {t : FS} (h : Visited s t) (hshared : RootShared t) :
      Found s (some 0) (some s.root_dir_inode) t
  | file {no q : Nat} {t : FS} (h : Opened s no q t) : Found s (some no) (some q) t

theorem Found.visited {u t : FS} {o r : Option Nat} (h : Found u o r t) (hv : Visited s u) :
    Found s o r t := by
  cases h with
  | none h => exact .none (hv.trans h)
  | root h hshared => exact hv.root ▸ .root (hv.trans h) hshared
  | file h => exact .file (h.visited hv)

theorem Found.rootDir {t : FS} {o r : Option Nat} (h : Found s o r t) (hs : RootDir s m) :
    RootDir t m := by
  cases h with
  | none h => exact h.rootDir hs
  | root h => exact h.rootDir hs
  | file h =>
      obtain ⟨-, -, -, ht⟩ := h.openedOne hs
      exact ht

theorem Found.root_eq {t : FS} {o r : Option Nat} (h : Found s o r t) (hs : RootDir s m) :
    t.root_dir_inode = s.root_dir_inode := by
  cases h with
  | none h => exact h.root
  | root h => exact h.root
  | file h =>
      obtain ⟨u, hv, hone, -⟩ := h.openedOne hs
      exact hone.root.trans hv.root

/-- What was found can be closed again. -/
theorem Found.close {t : FS} {o : Option Nat} {q : Nat} (h : Found s o (some q) t) (hs : RootDir s m) :
    ∃ u, inodeClose q t = .ok ((), u) ∧ Visited s u := by
  cases h with
  | root h => exact ⟨t, inodeClose_root h.root.symm, h⟩
  | file h => exact h.close hs

theorem RootDir.dirLookUp (h : RootDir s m) (hlen : name.length < MAX_FILE_NAME_LEN) :
    ∃ r t, Found s (s.lookNo 0 name) (r.map Prod.fst) t ∧
      dirLookUp s.root_dir_inode name s = .ok (r, t) := by
  cases hlook : s.lookNo 0 name with
  | none =>
      obtain ⟨r, hr, -⟩ := h.object
      exact ⟨none, s, .none (.refl hr), h.dirLookUp_none hlen hlook⟩
  | some no =>
      by_cases hno : no = 0
      · subst hno
        obtain ⟨off, t, hv, hshared, hrun⟩ := h.dirLookUp_root hlen hlook
        exact ⟨some (s.root_dir_inode, off), t, .root hv hshared, hrun⟩
      · obtain ⟨off, q, t, ho, hrun⟩ := h.dirLookUp_file hlen hlook hno
        exact ⟨some (q, off), t, .file ho, hrun⟩

end LookUp

/-! ## The search -/

section Search

variable {s : FS} {m n : Nat} {path : List Byte}

/-- A search stops only at a component that does not fit its buffer. -/
theorem RootDir.searchLoop (h : RootDir s m) (hn : path.length < n) :
    (¬ FitsPath path ∧ s.walk n 0 path = none ∧
        searchLoop n s.root_dir_inode path s = .error .undefined) ∨
      ∃ t, Visited s t ∧ searchLoop n s.root_dir_inode path s =
        .ok ((s.walk n 0 path).map fun r => (s.root_dir_inode, r.2), t) := by
  induction n generalizing s path with
  | zero => exact absurd hn (Nat.not_lt_zero _)
  | succ n ih =>
      obtain ⟨r, hr, hr0, -⟩ := h.object
      unfold RecoverOS.searchLoop FS.walk
      by_cases hlen : (pathParse path).1.length < MAX_FILE_NAME_LEN
      · rw [Prog.run_require_bind hlen, if_pos hlen]
        cases hparse : (pathParse path).2 with
        | none => exact .inr ⟨s, .refl hr, rfl⟩
        | some rest =>
            obtain ⟨hsuffix, hshort, -⟩ := pathParse_some hparse
            dsimp only
            cases hlook : s.lookNo 0 (pathParse path).1 with
            | none =>
                refine .inr ⟨s, .refl hr, ?_⟩
                rw [Prog.bind_of_ok (h.dirLookUp_none hlen hlook)]
                show (inodeClose s.root_dir_inode >>= _) s = _
                rw [Prog.bind_of_ok (inodeClose_root rfl)]
                rfl
            | some c =>
                obtain ⟨-, -, -, -, ha⟩ := h.lookNo_some hlook
                by_cases hc : c = 0
                · subst hc
                  obtain ⟨off, t, hv, -, hfound⟩ := h.dirLookUp_root hlen hlook
                  obtain ⟨r', hr', -, htype, -⟩ := (hv.rootDir h).object
                  rw [hv.root] at hr'
                  have hstep : (do
                      let c ← inodeAt s.root_dir_inode
                      if c.f_type ≠ FT_DIRECTORY then do
                        inodeClose s.root_dir_inode
                        inodeClose s.root_dir_inode
                        pure none
                      else do
                        inodeClose s.root_dir_inode
                        RecoverOS.searchLoop n s.root_dir_inode rest : Prog FS _) t =
                      RecoverOS.searchLoop n s.root_dir_inode rest t := by
                    rw [Prog.bind_of_ok (run_inodeAt hr'), if_neg (not_not.2 htype),
                      Prog.bind_of_ok (inodeClose_root hv.root.symm)]
                  rw [Prog.bind_of_ok hfound]
                  dsimp only
                  rw [hstep, if_pos ((h.isDirectory_iff ha).2 rfl), ← hv.walk h, ← hv.root]
                  obtain ⟨hunfit, hnone, hstop⟩ | ⟨u, hvu, hrun⟩ :=
                    ih (hv.rootDir h) (by omega : rest.length < n)
                  · exact .inl ⟨fun hfit => hunfit (hfit.suffix hsuffix), hnone, hstop⟩
                  · exact .inr ⟨u, hv.trans hvu, hrun⟩
                · obtain ⟨off, q, t, ho, hfound⟩ := h.dirLookUp_file hlen hlook hc
                  obtain ⟨u, hv, hone, ht⟩ := ho.openedOne h
                  obtain ⟨j, hj, hjno, -⟩ := hone.object
                  obtain ⟨v, hclose, hvv⟩ := ho.close h
                  have htype : j.f_type ≠ FT_DIRECTORY := fun hd =>
                    hc (hjno.symm.trans ((ht.type_iff hj).1 hd))
                  refine .inr ⟨v, hvv, ?_⟩
                  rw [Prog.bind_of_ok hfound]
                  dsimp only
                  rw [Prog.bind_of_ok (run_inodeAt hj), if_pos htype,
                    Prog.bind_of_ok (inodeClose_root (hone.root.trans hv.root).symm),
                    Prog.bind_of_ok hclose, if_neg fun hd => hc ((h.isDirectory_iff ha).1 hd)]
                  rfl
      · refine .inl ⟨fun hfit => hlen hfit.pathParse, if_neg hlen, ?_⟩
        rw [Prog.run_require_bind_not hlen]

/-- What a search starts with. -/
theorem RootDir.open_start (h : RootDir s m) (path : List Byte) :
    ∃ t, inodeOpen (if path.head? = some slashChar then 0 else 0) s = .ok (s.root_dir_inode, t) ∧
      Visited s t ∧ RootShared t := by
  rw [ite_self]
  exact h.open_root

theorem RootDir.walk_eq (h : RootDir s m) {t : FS} (hv : Visited s t) (path : List Byte) :
    t.walk (path.length + 1) 0 path = s.resolveParent 0 path := by
  rw [← hv.resolveParent h]
  unfold FS.resolveParent FS.startNo
  rw [ite_self]

theorem RootDir.searchFile_parent (h : RootDir s m) (path : List Byte) :
    (¬ FitsPath path ∧ s.resolveParent 0 path = none ∧
        searchFile 0 path true s = .error .undefined) ∨
      ∃ t, Visited s t ∧ searchFile 0 path true s =
        .ok ((s.resolveParent 0 path).map fun _ => s.root_dir_inode, t) := by
  obtain ⟨t, hopen, hv, -⟩ := h.open_start path
  have ht := hv.rootDir h
  unfold RecoverOS.searchFile
  rw [Prog.bind_of_ok hopen, ← hv.root]
  obtain ⟨hunfit, hnone, hstop⟩ | ⟨u, hvu, hrun⟩ := ht.searchLoop (Nat.lt_succ_self path.length)
  · exact .inl ⟨hunfit, (h.walk_eq hv path).symm.trans hnone, Prog.bind_of_error hstop _⟩
  · refine .inr ⟨u, hv.trans hvu, ?_⟩
    rw [Prog.bind_of_ok hrun, h.walk_eq hv]
    cases s.resolveParent 0 path with
    | none => rfl
    | some d => rfl

theorem RootDir.searchFile (h : RootDir s m) (path : List Byte) :
    (¬ FitsPath path ∧ s.resolve 0 path = none ∧ searchFile 0 path false s = .error .undefined) ∨
      ∃ r t, Found s (s.resolve 0 path) r t ∧ searchFile 0 path false s = .ok (r, t) := by
  obtain ⟨t, hopen, hv, hshared⟩ := h.open_start path
  have ht := hv.rootDir h
  unfold RecoverOS.searchFile
  rw [Prog.bind_of_ok hopen, ← hv.root]
  obtain ⟨hunfit, hnone, hstop⟩ | ⟨u, hvu, hrun⟩ := ht.searchLoop (Nat.lt_succ_self path.length)
  · refine .inl ⟨hunfit, ?_, Prog.bind_of_error hstop _⟩
    have hparent := (h.walk_eq hv path).symm.trans hnone
    unfold FS.resolve
    rw [hparent]
  · refine .inr ?_
    have hvs := hv.trans hvu
    rw [Prog.bind_of_ok hrun, h.walk_eq hv, hv.root]
    unfold FS.resolve
    cases hparent : s.resolveParent 0 path with
    | none => exact ⟨none, u, .none hvs, rfl⟩
    | some parent =>
        obtain ⟨d, name⟩ := parent
        obtain ⟨rfl, -, hlen⟩ := h.resolveParent_some hparent
        dsimp only [Option.map_some]
        by_cases hname : name = []
        · rw [if_pos (Or.inr hname), if_pos hname]
          exact ⟨some s.root_dir_inode, u, .root hvs (hvu.shared hshared), rfl⟩
        · obtain ⟨r, v, hfound, hlook⟩ := (hvs.rootDir h).dirLookUp hlen
          rw [hvs.root] at hlook
          rw [if_neg (show ¬ (false = true ∨ name = []) by simp [hname]), if_neg hname, Prog.bind_of_ok hlook, ← hvs.lookNo h]
          have hclose : ∀ o, Found u (u.lookNo 0 name) o v → inodeClose s.root_dir_inode v = .ok ((), v) :=
            fun o ho => inodeClose_root ((hvs.root.symm.trans (ho.root_eq (hvs.rootDir h)).symm))
          cases r with
          | none =>
              refine ⟨none, v, hfound.visited hvs, ?_⟩
              show (inodeClose s.root_dir_inode >>= _) v = _
              rw [Prog.bind_of_ok (hclose _ hfound)]
              rfl
          | some found =>
              refine ⟨some found.1, v, hfound.visited hvs, ?_⟩
              show (inodeClose s.root_dir_inode >>= _) v = _
              rw [Prog.bind_of_ok (hclose _ hfound)]
              rfl

/-- The look-up of what is to be deleted. -/
theorem RootDir.deleteLookUp (h : RootDir s m) (path : List Byte) :
    (¬ FitsPath path ∧ s.resolveParent 0 path = none ∧
        deleteLookUp 0 path s = .error .undefined) ∨
      ∃ r t, Found s (s.lastNo 0 path) r t ∧
        deleteLookUp 0 path s = .ok (r.map fun q => (s.root_dir_inode, q), t) := by
  unfold RecoverOS.deleteLookUp
  obtain ⟨hunfit, hparent, hstop⟩ | ⟨t, hv, hrun⟩ := h.searchFile_parent path
  · exact .inl ⟨hunfit, hparent, Prog.bind_of_error hstop _⟩
  · refine .inr ?_
    rw [Prog.bind_of_ok hrun]
    unfold FS.lastNo
    cases hparent : s.resolveParent 0 path with
    | none => exact ⟨none, t, .none hv, rfl⟩
    | some parent =>
        obtain ⟨d, name⟩ := parent
        obtain ⟨rfl, rfl, hlen⟩ := h.resolveParent_some hparent
        obtain ⟨r, u, hfound, hlook⟩ := (hv.rootDir h).dirLookUp hlen
        rw [hv.root] at hlook
        dsimp only [Option.map_some]
        rw [Prog.bind_of_ok hlook, ← hv.lookNo h]
        cases r with
        | none =>
            refine ⟨none, u, hfound.visited hv, ?_⟩
            show (inodeClose s.root_dir_inode >>= _) u = _
            rw [Prog.bind_of_ok (inodeClose_root (hv.root.symm.trans (hfound.root_eq (hv.rootDir h)).symm))]
            rfl
        | some found => exact ⟨some found.1, u, hfound.visited hv, rfl⟩

end Search

end RecoverOS
