import RecoverOS.Base.Count
import RecoverOS.Fs.PathCalls

set_option autoImplicit false

/-! # Who has an inode open (`fs/fs.c`, `fs/file.c`)

One process opens, closes and unlinks files, opens and closes directories and asks for sizes. The open
count of an inode is the number of slots and directory streams that refer to it until a call goes wrong:
`file_open` with the table full and `sys_opendir` of a file keep what `search_file` opened, and
`sys_unlink` closes the inode that it has just freed. -/

namespace RecoverOS

/-- The kernel, and the inodes of the directory streams that the process has open. -/
structure Session (P : Type) where
  kernel : Kernel P
  streams : List Nat

namespace Session

open Kernel

variable {P : Type} [DecidableEq P]

/-- A call that knows nothing of directory streams. -/
def onKernel {α : Type} (m : Prog (Kernel P) α) : Prog (Session P) α :=
  Prog.zoom kernel (fun kernel s => { s with kernel := kernel }) m

/-- `sys_opendir`. -/
def sysOpendir (p : P) (path : List Byte) : Prog (Session P) Unit := do
  let pdir ← onKernel (Kernel.sysOpendir p path)
  match pdir with
  | none => pure ()
  | some inode => Prog.modify fun s => { s with streams := inode :: s.streams }

/-- `sys_closedir` of the stream at `k`. -/
def sysClosedir (k : Nat) : Prog (Session P) Unit := do
  let s ← Prog.get
  let inode ← Prog.ofOption s.streams[k]?
  Prog.modify fun s => { s with streams := s.streams.eraseIdx k }
  if inode = s.kernel.fs.root_dir_inode then pure ()
  else onKernel (onFs (inodeClose inode))

/-- A call of the process. -/
inductive Op where
  | open (pathname : List Byte) (flag : Nat)
  | close (fd : Nat)
  | opendir (path : List Byte)
  | closedir (k : Nat)
  | stat (path : List Byte)
  | unlink (pathname : List Byte)

namespace Op

/-- What the call does; `mapped` as for `sys_unlink`. -/
def run (mapped : Bool) (p : P) : Op → Prog (Session P) Unit
  | .open pathname flag => onKernel (Call.open p pathname flag).run
  | close fd => onKernel (Call.close p fd).run
  | opendir path => sysOpendir p path
  | closedir k => sysClosedir k
  | stat path => onKernel (Call.stat p path).run
  | unlink pathname => onKernel (Call.unlink mapped p pathname).run

/-- Names fit the buffer of `path_parse`, descriptors `fd_table`, and a stream that is closed is open. -/
def Fits (s : Session P) : Op → Prop
  | .open pathname _ => FitsPath pathname
  | close fd => fd < MAX_FILES_OPEN_PER_PROC
  | opendir path => FitsPath path
  | closedir k => k < s.streams.length
  | stat path => FitsPath path
  | unlink pathname => FitsPath pathname

/-- Only files that are not open are unlinked. -/
def Regular (s : Session P) : Op → Prop
  | unlink pathname => ∀ no, s.kernel.fs.resolve 0 pathname = some no → ∀ fd_idx < MAX_FILES_OPEN,
      ∀ inode i, (s.kernel.file_table fd_idx).fd_inode = some inode →
        s.kernel.fs.inodes inode = some i → i.i_no ≠ no
  | _ => True

/-- No file is opened while the table is full or as a directory, and no unlinking gets as far as freeing
    an inode. -/
def Safe (s : Session P) : Op → Prop
  | .open pathname flag => flag &&& O_CREAT = O_CREAT ∨ getFreeSlotInGlobal s.kernel ≠ none ∨
      ∀ no, s.kernel.fs.resolve 0 pathname = some no → no = 0
  | opendir path => ∀ no, s.kernel.fs.resolve 0 path = some no → no = 0
  | unlink pathname => ∀ no, s.kernel.fs.lastNo 0 pathname = some no →
      no = 0 ∨ s.kernel.fs.openCount no ≠ 0
  | _ => True

end Op

/-- The slots and directory streams that refer to an inode. -/
def refs (s : Session P) (inode : Nat) : Nat :=
  countTo (fun fd_idx => (s.kernel.file_table fd_idx).fd_inode) (List.range MAX_FILES_OPEN) inode +
    s.streams.count inode

/-- The open counts are right, and what nobody refers to is not open. -/
def CountsExact (s : Session P) : Prop :=
  ∀ inode ∈ s.kernel.fs.open_inodes, inode ≠ s.kernel.fs.root_dir_inode →
    ∃ i, s.kernel.fs.inodes inode = some i ∧ i.i_open_cnts = s.refs inode ∧ 0 < s.refs inode

/-- What a call must do: it closes only inodes that are open, which is to say that it ends well, and in
    the same way whether or not the memory of a freed inode is still mapped, and it leaves the counts
    right. -/
structure Sound (p : P) (s : Session P) (c : Op) : Prop where
  inside : c.Fits s → c.run true p s ≠ .error .undefined
  unfreed : ∀ t, c.run true p s = .ok ((), t) → c.run false p s = .ok ((), t)
  exact : ∀ t, c.run true p s = .ok ((), t) → t.CountsExact

end Session

/-! ## References taken and given back -/

section Taken

variable {s t : FS} {m no q q' k : Nat} {i : Inode} {path : List Byte}

/-- The open count of the inode at a pointer, 0 if there is none. -/
def FS.countAt (s : FS) (inode : Nat) : Nat := ((s.inodes inode).map Inode.i_open_cnts).getD 0

theorem FS.countAt_some (h : s.inodes q = some i) : s.countAt q = i.i_open_cnts := by
  unfold FS.countAt
  rw [h]
  rfl

theorem FS.countAt_none (h : s.inodes q = none) : s.countAt q = 0 := by
  unfold FS.countAt
  rw [h]
  rfl

theorem FS.countAt_congr (h : t.inodes q = s.inodes q) : t.countAt q = s.countAt q := by
  unfold FS.countAt
  rw [h]

theorem SameObjects.countAt (h : SameObjects s t) (hq : q ≠ s.root_dir_inode) :
    t.countAt q = s.countAt q :=
  FS.countAt_congr (h.inodes q hq)

/-- `t` has one reference more than `s`, to `q`. References to the root are not counted. -/
structure Taken (s : FS) (q : Nat) (t : FS) : Prop where
  root : t.root_dir_inode = s.root_dir_inode
  count : ∀ q', q' ≠ s.root_dir_inode → t.countAt q' = s.countAt q' + if q' = q then 1 else 0

theorem SameObjects.taken_root (h : SameObjects s t) : Taken s s.root_dir_inode t := by
  refine ⟨h.root, fun q' hq' => ?_⟩
  rw [if_neg hq', h.countAt hq']
  rfl

theorem Opened.taken (h : Opened s no q t) (hs : RootDir s m) : Taken s q t := by
  obtain ⟨hroot, hothers⟩ := h.others hs
  refine ⟨hroot, fun q' hq' => ?_⟩
  by_cases hqq : q' = q
  · subst hqq
    obtain ⟨j, hj, -, hcnt⟩ := h.object hs
    obtain ⟨u, hv, hone, -⟩ := h.openedOne hs
    have hwas := hone.was
    rw [hv.inodes_other hq'] at hwas
    rw [FS.countAt_some hj, hcnt, if_pos rfl]
    obtain hnone | ⟨i, hi, hno⟩ := hwas
    · -- no other pointer leads to the inode
      have hclosed : s.objectOf no = none :=
        (objectOf_eq_none hs.dir.inv.table).2 fun p i hp hno => by
          rw [← h.pointer_eq hs hp hno, hnone] at hp
          cases hp
      unfold FS.openCount
      rw [hclosed, FS.countAt_none hnone]
      rfl
    · rw [FS.countAt_some hi, ← hno, openCount_object hs.dir.inv.table hi]
  · rw [if_neg hqq, FS.countAt_congr (hothers q' hqq hq')]
    rfl

theorem Found.taken (h : Found s (some no) (some q) t) (hs : RootDir s m) : Taken s q t := by
  cases h with
  | root hv => exact hv.sameObjects.taken_root
  | file ho => exact ho.taken hs

theorem Found.visited_of_none {o : Option Nat} (h : Found s o Option.none t) : Visited s t := by
  cases h with
  | none hv => exact hv

theorem Found.object {o : Option Nat} (h : Found s o (some q) t) (hs : RootDir s m) :
    ∃ j, t.inodes q = some j := by
  have ht := h.rootDir hs
  cases h with
  | root hv =>
      obtain ⟨r, hr, -⟩ := ht.object
      exact ⟨r, hv.root ▸ hr⟩
  | file ho =>
      obtain ⟨j, hj, -⟩ := ho.object hs
      exact ⟨j, hj⟩

/-- The object that was found is that of its inode. -/
theorem Found.no_eq (h : Found s (some no) (some q) t) (hs : RootDir s m) (hq : s.inodes q = some i) :
    i.i_no = no := by
  cases h with
  | root =>
      obtain ⟨r, hr, hr0, -⟩ := hs.object
      rw [hq] at hr
      cases hr
      exact hr0
  | file ho =>
      obtain ⟨u, hv, hone, -⟩ := ho.openedOne hs
      have hwas := hone.was
      have hne : q ≠ s.root_dir_inode := (ho.others hs).1 ▸ ho.ne_root hs
      rw [hv.inodes_other hne, hq] at hwas
      obtain hnone | ⟨j, hj, hno⟩ := hwas
      · cases hnone
      · cases hj
        exact hno

theorem Created.taken (h : Created s m path q k t) : Taken s q t := by
  refine ⟨h.root, fun q' hq' => ?_⟩
  by_cases hqq : q' = q
  · rw [if_pos hqq, hqq, FS.countAt_some h.object, FS.countAt_none h.pointer]
    rfl
  · rw [if_neg hqq, FS.countAt_congr (h.others q' hqq hq')]
    rfl

/-- `inode_close` gives one reference back. -/
theorem taken_of_inodeClose (hs : s.OpenTable) (h : inodeClose q s = .ok ((), t)) : Taken t q s := by
  obtain ⟨rfl, rfl⟩ | ⟨-, i, hi, ⟨hcnt, rfl⟩ | ⟨-, rfl⟩⟩ := inodeClose_eq h
  · refine ⟨rfl, fun q' hq' => ?_⟩
    rw [if_neg hq']
    rfl
  · refine ⟨rfl, fun q' _ => ?_⟩
    by_cases hqq : q' = q
    · subst hqq
      rw [if_pos rfl, FS.countAt_some hi, hcnt,
        FS.countAt_none (show (s.dropInode q').inodes q' = none from Function.update_self ..)]
    · have hkept : (s.dropInode q).inodes q' = s.inodes q' := Function.update_of_ne hqq _ _
      rw [if_neg hqq, FS.countAt_congr hkept]
      rfl
  · have hpos := hs.counted q i hi
    refine ⟨rfl, fun q' _ => ?_⟩
    by_cases hqq : q' = q
    · subst hqq
      rw [if_pos rfl, FS.countAt_some hi, FS.countAt_some (Function.update_self ..)]
      exact (Nat.sub_add_cancel hpos).symm
    · have hkept : (s.setObject q { i with i_open_cnts := i.i_open_cnts - 1 }).inodes q' = s.inodes q' :=
        Function.update_of_ne hqq _ _
      rw [if_neg hqq, FS.countAt_congr hkept]
      rfl

theorem inodeClose_run (h : q = s.root_dir_inode ∨ s.countAt q ≠ 0) :
    ∃ t, inodeClose q s = .ok ((), t) := by
  by_cases hroot : q = s.root_dir_inode
  · exact ⟨s, inodeClose_root hroot⟩
  · cases hi : s.inodes q with
    | none => exact absurd (FS.countAt_none hi) (h.resolve_left hroot)
    | some i =>
        by_cases hcnt : i.i_open_cnts = 1
        · exact ⟨_, inodeClose_last hroot hi hcnt⟩
        · exact ⟨_, inodeClose_more hroot hi hcnt⟩

end Taken

namespace Session

open Kernel

variable {P : Type} [DecidableEq P] {s s' : Session P} {p : P} {path : List Byte}

/-! ## The invariant -/

/-- The counts are right, and no descriptor outlives its slot. -/
structure Counted (p : P) (s : Session P) : Prop where
  rooted : Rooted s.kernel
  count : ∀ q, q ≠ s.kernel.fs.root_dir_inode → s.kernel.fs.countAt q = s.refs q
  slot : ∀ fd idx, s.kernel.fd_table p fd = some idx →
    idx < MAX_FILES_OPEN ∧ (s.kernel.file_table idx).fd_inode ≠ none
  slot_inj : ∀ fd fd' idx, s.kernel.fd_table p fd = some idx → s.kernel.fd_table p fd' = some idx →
    fd = fd'

omit [DecidableEq P] in
theorem Counted.exact (h : Counted p s) : s.CountsExact := by
  intro q hq hne
  obtain ⟨m, hm⟩ := h.rooted.fs
  obtain ⟨i, hi⟩ := (hm.dir.inv.table.mem_iff q).1 hq
  have hcount := h.count q hne
  rw [FS.countAt_some hi] at hcount
  exact ⟨i, hi, hcount, hcount ▸ hm.dir.inv.table.counted q i hi⟩

omit [DecidableEq P] in
/-- A reference that counts leads to an open inode. -/
theorem Counted.live (h : Counted p s) {q : Nat} (hq : 0 < s.refs q) :
    q = s.kernel.fs.root_dir_inode ∨ s.kernel.fs.countAt q ≠ 0 := by
  by_cases hroot : q = s.kernel.fs.root_dir_inode
  · exact .inl hroot
  · rw [h.count q hroot]
    exact .inr (Nat.ne_of_gt hq)

omit [DecidableEq P] in
theorem slot_refs {q idx : Nat} (hidx : idx < MAX_FILES_OPEN)
    (hq : (s.kernel.file_table idx).fd_inode = some q) : 0 < s.refs q := by
  have hpos : 0 < countTo (fun i => (s.kernel.file_table i).fd_inode) (List.range MAX_FILES_OPEN) q :=
    countTo_pos (List.mem_range.2 hidx) hq
  exact Nat.add_pos_left hpos _

/-- One slot changed. -/
theorem countTo_setSlot (file_table : Nat → File) {idx : Nat} (hidx : idx < MAX_FILES_OPEN) (f : File)
    (q : Nat) :
    countTo (fun i => (Function.update file_table idx f i).fd_inode) (List.range MAX_FILES_OPEN) q +
        (if (file_table idx).fd_inode = some q then 1 else 0) =
      countTo (fun i => (file_table i).fd_inode) (List.range MAX_FILES_OPEN) q +
        if f.fd_inode = some q then 1 else 0 := by
  have hupdate : (fun i => (Function.update file_table idx f i).fd_inode) =
      Function.update (fun i => (file_table i).fd_inode) idx f.fd_inode :=
    funext fun i => Function.apply_update (fun _ f => File.fd_inode f) file_table idx f i
  rw [hupdate]
  exact countTo_update List.nodup_range (List.mem_range.2 hidx)

omit [DecidableEq P] in
theorem getFreeSlotInGlobal_some {k : Kernel P} {idx : Nat} (h : getFreeSlotInGlobal k = some idx) :
    idx < MAX_FILES_OPEN ∧ (k.file_table idx).fd_inode = none := by
  have hmem := List.mem_range'_1.1 (List.mem_of_find?_eq_some h)
  have hfree := List.find?_some (p := fun i => (k.file_table i).fd_inode.isNone) h
  exact ⟨hmem.2, Option.isNone_iff_eq_none.1 hfree⟩

omit [DecidableEq P] in
/-- The file system changed below the open files. -/
theorem Counted.keep {t : FS} (h : Counted p s) (ht : ∃ m, RootDir t m)
    (hsame : SameObjects s.kernel.fs t) : Counted p { s with kernel := { s.kernel with fs := t } } where
  rooted := h.rooted.congr rfl ht
  count := fun q hq => by
    have hq' : q ≠ s.kernel.fs.root_dir_inode := fun heq => hq (heq.trans hsame.root.symm)
    exact (hsame.countAt hq').trans (h.count q hq')
  slot := h.slot
  slot_inj := h.slot_inj

omit [DecidableEq P] in
/-- An inode was opened and put in a free slot. -/
theorem Counted.install {t : FS} {q idx flag : Nat} {r : Option Nat} {fdt : P → Nat → Option Nat}
    (h : Counted p s) (ht : ∃ m, RootDir t m) (htaken : Taken s.kernel.fs q t)
    (hidx : getFreeSlotInGlobal s.kernel = some idx) (hfdt : Installed s.kernel p idx r fdt) :
    Counted p { s with kernel := { s.kernel with
      fs := t
      file_table := Function.update s.kernel.file_table idx ⟨0, flag, some q⟩
      fd_table := fdt } } := by
  obtain ⟨hlt, hfree⟩ := getFreeSlotInGlobal_some hidx
  -- no descriptor led to the slot
  have hunused : ∀ fd, s.kernel.fd_table p fd ≠ some idx := fun fd hfd => (h.slot fd idx hfd).2 hfree
  refine ⟨h.rooted.congr rfl ht, fun q' hq' => ?_, fun fd idx' hfd => ?_, fun fd fd' idx' hfd hfd' => ?_⟩
  · have hq : q' ≠ s.kernel.fs.root_dir_inode := fun heq => hq' (heq.trans htaken.root.symm)
    have hslots := countTo_setSlot s.kernel.file_table hlt ⟨0, flag, some q⟩ q'
    rw [hfree, if_neg nofun] at hslots
    have hcount := h.count q' hq
    have htook := htaken.count q' hq
    show t.countAt q' = countTo (fun i => (Function.update s.kernel.file_table idx
      ⟨0, flag, some q⟩ i).fd_inode) (List.range MAX_FILES_OPEN) q' + s.streams.count q'
    unfold refs at hcount
    simp only [Option.some.injEq] at hslots
    by_cases hqq : q' = q
    · rw [if_pos hqq] at htook
      rw [if_pos hqq.symm] at hslots
      omega
    · rw [if_neg hqq] at htook
      rw [if_neg (Ne.symm hqq)] at hslots
      omega
  · show idx' < _ ∧ (Function.update s.kernel.file_table idx _ idx').fd_inode ≠ none
    by_cases heq : idx' = idx
    · rw [heq, Function.update_self]
      exact ⟨hlt, nofun⟩
    · rw [Function.update_of_ne heq]
      obtain hold | ⟨hr, -⟩ := hfdt.others fd
      · exact h.slot fd idx' (hold ▸ hfd)
      · exact absurd (Option.some.inj ((hfdt.slot fd hr).symm.trans hfd)).symm heq
  · obtain hold | ⟨hr, -⟩ := hfdt.others fd
    · obtain hold' | ⟨hr', -⟩ := hfdt.others fd'
      · exact h.slot_inj fd fd' idx' (hold ▸ hfd) (hold' ▸ hfd')
      · have heq : idx = idx' := Option.some.inj ((hfdt.slot fd' hr').symm.trans hfd')
        exact absurd (heq ▸ hold ▸ hfd) (hunused fd)
    · obtain hold' | ⟨hr', -⟩ := hfdt.others fd'
      · have heq : idx = idx' := Option.some.inj ((hfdt.slot fd hr).symm.trans hfd)
        exact absurd (heq ▸ hold' ▸ hfd') (hunused fd')
      · exact Option.some.inj (hr.symm.trans hr')

/-- The inode of a descriptor was closed. -/
theorem Counted.release {t : FS} {q idx fd : Nat} {f : File} (h : Counted p s) (ht : ∃ m, RootDir t m)
    (hfd : s.kernel.fd_table p fd = some idx) (hf : f = s.kernel.file_table idx)
    (hq : f.fd_inode = some q) (htaken : Taken t q s.kernel.fs) :
    Counted p { s with kernel := { s.kernel with
      fs := t
      file_table := Function.update s.kernel.file_table idx { f with fd_inode := none }
      fd_table := Function.update s.kernel.fd_table p
        (Function.update (s.kernel.fd_table p) fd none) } } := by
  obtain ⟨hlt, -⟩ := h.slot fd idx hfd
  have hself : ∀ fd' idx', Function.update s.kernel.fd_table p
      (Function.update (s.kernel.fd_table p) fd none) p fd' = some idx' →
      fd' ≠ fd ∧ s.kernel.fd_table p fd' = some idx' := by
    intro fd' idx' heq
    rw [Function.update_self] at heq
    by_cases hne : fd' = fd
    · rw [hne, Function.update_self] at heq
      cases heq
    · rw [Function.update_of_ne hne] at heq
      exact ⟨hne, heq⟩
  refine ⟨h.rooted.congr rfl ht, fun q' hq' => ?_, fun fd' idx' hfd' => ?_,
    fun fd1 fd2 idx' hfd1 hfd2 => h.slot_inj fd1 fd2 idx' (hself _ _ hfd1).2 (hself _ _ hfd2).2⟩
  · have hslots := countTo_setSlot s.kernel.file_table hlt { f with fd_inode := none } q'
    rw [← hf, hq] at hslots
    have hcount := h.count q' fun heq => hq' (heq.trans htaken.root)
    have htook := htaken.count q' hq'
    show t.countAt q' = countTo (fun i => (Function.update s.kernel.file_table idx
      { f with fd_inode := none } i).fd_inode) (List.range MAX_FILES_OPEN) q' + s.streams.count q'
    unfold refs at hcount
    simp only [Option.some.injEq, reduceCtorEq, if_false] at hslots
    by_cases hqq : q' = q
    · rw [if_pos hqq] at htook
      rw [if_pos hqq.symm] at hslots
      omega
    · rw [if_neg hqq] at htook
      rw [if_neg (Ne.symm hqq)] at hslots
      omega
  · obtain ⟨hne, hold⟩ := hself fd' idx' hfd'
    have hidx : idx' ≠ idx := fun heq => hne (h.slot_inj fd' fd idx (heq ▸ hold) hfd)
    show idx' < _ ∧ (Function.update s.kernel.file_table idx _ idx').fd_inode ≠ none
    rw [Function.update_of_ne hidx]
    exact h.slot fd' idx' hold

/-! ## How the calls end -/

section Run

variable {α : Type} {m : Prog (Kernel P) α} {a : α} {k : Kernel P}

omit [DecidableEq P] in
theorem run_onKernel (h : m s.kernel = .ok (a, k)) : onKernel m s = .ok (a, { s with kernel := k }) :=
  Prog.zoom_eq_ok.2 ⟨k, h, rfl⟩

omit [DecidableEq P] in
theorem run_onKernel_error {e : Fault} (h : m s.kernel = .error e) : onKernel m s = .error e := by
  unfold onKernel Prog.zoom
  rw [h]

omit [DecidableEq P] in
theorem run_drop (h : m s.kernel = .ok (a, k)) :
    onKernel (do let _ ← m; pure ()) s = .ok ((), { s with kernel := k }) :=
  run_onKernel (Prog.bind_of_ok h _)

omit [DecidableEq P] in
theorem run_drop_error {e : Fault} (h : m s.kernel = .error e) :
    onKernel (do let _ ← m; pure ()) s = .error e :=
  run_onKernel_error (Prog.bind_of_error h _)

end Run

/-- How a call ends that does what it must. -/
inductive Ends (p : P) (s : Session P) (c : Op) : Prop where
  | returns {t : Session P} (hrun : ∀ mapped, c.run mapped p s = .ok ((), t)) (h : Counted p t)
  | panics (hrun : ∀ mapped, c.run mapped p s = .error .panic)
  | overruns (hfits : ¬ c.Fits s) (hrun : ∀ mapped, c.run mapped p s = .error .undefined)

namespace Ends

variable {c : Op} {mapped : Bool}

theorem counted (h : Ends p s c) (hrun : c.run mapped p s = .ok ((), s')) : Counted p s' := by
  cases h with
  | returns hret ht =>
      rw [hret] at hrun
      cases hrun
      exact ht
  | panics hret =>
      rw [hret] at hrun
      cases hrun
  | overruns _ hret =>
      rw [hret] at hrun
      cases hrun

theorem sound (h : Ends p s c) : Sound p s c := by
  refine ⟨fun hfits hrun => ?_, fun t hrun => ?_, fun t hrun => (h.counted hrun).exact⟩
  · cases h with
    | returns hret _ =>
        rw [hret] at hrun
        cases hrun
    | panics hret =>
        rw [hret] at hrun
        cases hrun
    | overruns hunfit _ => exact hunfit hfits
  · cases h with
    | returns hret _ => rw [← hrun, hret, hret]
    | panics hret => rw [← hrun, hret, hret]
    | overruns _ hret => rw [← hrun, hret, hret]

end Ends

/-- `file_create` balances what it opens on every path. -/
theorem Counted.create (h : Counted p s) (path : List Byte) {flag : Nat} (hflag : flag &&& O_CREAT = O_CREAT) :
    Ends p s (.open path flag) := by
  have hcall : sysOpen p path flag = fileCreate p path flag := if_pos hflag
  obtain ⟨-, hcreate⟩ | ⟨idx, m, hidx, hm, ⟨hunfit, hcreate⟩ | ⟨t, hcreate, ht, hsame, -⟩ |
    ⟨k, t, fd, fdt, hc, hfd, hcreate⟩⟩ := h.rooted.fileCreate p path flag
  all_goals rw [← hcall] at hcreate
  · exact .returns (fun _ => run_drop hcreate) h
  · exact .overruns hunfit fun _ => run_drop_error hcreate
  · exact .returns (fun _ => run_drop hcreate) (h.keep ⟨m, ht⟩ hsame)
  · obtain ⟨l, -, -, ht, -⟩ := hc.linked
    exact .returns (fun _ => run_drop hcreate) (h.install ⟨_, ht⟩ hc.taken hidx hfd)

theorem Counted.open_file (h : Counted p s) {flag : Nat} (hflag : flag &&& O_CREAT ≠ O_CREAT)
    (hsafe : getFreeSlotInGlobal s.kernel ≠ none ∨ ∀ no, s.kernel.fs.resolve 0 path = some no → no = 0) :
    Ends p s (.open path flag) := by
  obtain ⟨m, hm⟩ := h.rooted.fs
  have hcall : sysOpen p path flag = fileOpen p path flag := if_neg hflag
  obtain ⟨hunfit, -, hopen⟩ | ⟨r, t, hfound, hcase⟩ := h.rooted.fileOpen p path flag
  · exact .overruns hunfit fun _ => run_drop_error (hcall ▸ hopen)
  · have ht := hfound.rootDir hm
    generalize hno : s.kernel.fs.resolve 0 path = o at hfound
    obtain ⟨rfl, hopen⟩ | ⟨q, rfl, ⟨hfull, hopen⟩ | ⟨idx, fd, fdt, hidx, hfd, hopen⟩⟩ := hcase
    all_goals rw [← hcall] at hopen
    · exact .returns (fun _ => run_drop hopen) (h.keep ⟨m, ht⟩ hfound.visited_of_none.sameObjects)
    · have hzero := hsafe.resolve_left (not_not.2 hfull)
      cases hfound with
      | root hv => exact .returns (fun _ => run_drop hopen) (h.keep ⟨m, ht⟩ hv.sameObjects)
      | file ho => exact absurd (hzero _ hno) ho.ne_zero
    · obtain ⟨no, rfl⟩ : ∃ no, o = some no := by
        cases hfound with
        | root => exact ⟨_, rfl⟩
        | file => exact ⟨_, rfl⟩
      exact .returns (fun _ => run_drop hopen) (h.install ⟨m, ht⟩ (hfound.taken hm) hidx hfd)

theorem Counted.close (h : Counted p s) (fd : Nat) : Ends p s (.close fd) := by
  by_cases hstd : 2 < fd
  · by_cases hfit : fd < MAX_FILES_OPEN_PER_PROC
    · cases hfd : s.kernel.fd_table p fd with
      | none =>
          refine .panics fun _ => run_onKernel_error ?_
          show sysClose p fd s.kernel = _
          unfold sysClose openFile fdLocal2Global
          rw [Prog.run_assert_bind hstd]
          refine Prog.bind_of_error (Prog.bind_of_error ?_ _) _
          rw [Prog.run_require_bind hfit, Prog.bind_of_ok (a := s.kernel) (t := s.kernel) rfl, hfd]
          rfl
      | some idx =>
          obtain ⟨hlt, hset⟩ := h.slot fd idx hfd
          obtain ⟨q, hq⟩ := Option.ne_none_iff_exists'.1 hset
          have hopen : openFile p fd s.kernel = .ok ((idx, s.kernel.file_table idx, q), s.kernel) :=
            openFile_eq_ok.2 ⟨hfit, hfd, hlt, rfl, hq, rfl⟩
          obtain ⟨t, hclose⟩ := inodeClose_run (h.live (slot_refs hlt hq))
          obtain ⟨m, hm⟩ := h.rooted.fs
          have hrun := sysClose_eq_ok.2 ⟨hstd, idx, _, q, t, hopen, hclose, rfl⟩
          exact .returns (fun _ => run_onKernel hrun) (h.release ⟨m, hm.close hclose⟩ hfd rfl hq
            (taken_of_inodeClose hm.dir.inv.table hclose))
    · refine .overruns hfit fun _ => run_onKernel_error ?_
      show sysClose p fd s.kernel = _
      unfold sysClose openFile fdLocal2Global
      rw [Prog.run_assert_bind hstd]
      refine Prog.bind_of_error (Prog.bind_of_error ?_ _) _
      rw [Prog.run_require_bind_not hfit]
  · refine .panics fun _ => run_onKernel_error ?_
    show sysClose p fd s.kernel = _
    unfold sysClose
    rw [Prog.run_assert_bind_not hstd]

theorem Counted.stat (h : Counted p s) (path : List Byte) : Ends p s (.stat path) := by
  obtain ⟨m, hm⟩ := h.rooted.fs
  obtain ⟨hunfit, -, hstop⟩ | ⟨r, t, hfound, hsearch⟩ := hm.searchFile path
  · refine .overruns hunfit fun _ => run_drop_error ?_
    unfold sysStat
    rw [Prog.bind_of_ok (a := s.kernel) (t := s.kernel) rfl, h.rooted.cwd]
    exact Prog.bind_of_error (run_onFs_error hstop) _
  · have ht := hfound.rootDir hm
    cases r with
    | none =>
        have hrun : sysStat p path s.kernel = .ok (none, { s.kernel with fs := t }) := by
          unfold sysStat
          rw [Prog.bind_of_ok (a := s.kernel) (t := s.kernel) rfl, h.rooted.cwd,
            Prog.bind_of_ok (run_onFs hsearch)]
          rfl
        exact .returns (fun _ => run_drop hrun) (h.keep ⟨m, ht⟩ hfound.visited_of_none.sameObjects)
    | some q =>
        obtain ⟨u, hclose, hv⟩ := hfound.close hm
        obtain ⟨j, hj⟩ := hfound.object hm
        have hpos : 1 ≤ j.i_open_cnts := ht.dir.inv.table.counted q j hj
        have hrun : sysStat p path s.kernel =
            .ok (some (j.i_no, j.i_size, j.f_type), { s.kernel with fs := u }) := by
          unfold sysStat
          rw [Prog.bind_of_ok (a := s.kernel) (t := s.kernel) rfl, h.rooted.cwd,
            Prog.bind_of_ok (run_onFs hsearch)]
          show (onFs (inodeAt q) >>= _) _ = _
          rw [Prog.bind_of_ok (run_onFs (run_inodeAt hj)),
            Prog.run_assert_bind hpos, Prog.bind_of_ok (run_onFs hclose)]
          rfl
        exact .returns (fun _ => run_drop hrun) (h.keep ⟨m, hv.rootDir hm⟩ hv.sameObjects)

omit [DecidableEq P] in
theorem Counted.opendir_run (h : Counted p s) (path : List Byte) :
    (¬ FitsPath path ∧ s.kernel.fs.resolve 0 path = none ∧ sysOpendir p path s = .error .undefined) ∨
      (s.kernel.fs.resolve 0 path = none ∧ ∃ t, Visited s.kernel.fs t ∧
        sysOpendir p path s = .ok ((), { s with kernel := { s.kernel with fs := t } })) ∨
      (s.kernel.fs.resolve 0 path = some 0 ∧ ∃ t, Visited s.kernel.fs t ∧ sysOpendir p path s = .ok ((),
        { kernel := { s.kernel with fs := t }, streams := s.kernel.fs.root_dir_inode :: s.streams })) ∨
      ∃ no q t, s.kernel.fs.resolve 0 path = some no ∧ Opened s.kernel.fs no q t ∧
        sysOpendir p path s = .ok ((), { s with kernel := { s.kernel with fs := t } }) := by
  unfold Session.sysOpendir
  obtain ⟨hunfit, hnone, hrun⟩ | ⟨hnone, t, hv, hrun⟩ | ⟨hno, t, hv, hrun⟩ | ⟨no, q, t, hno, ho, hrun⟩ :=
    h.rooted.sysOpendir_cases p path
  · exact .inl ⟨hunfit, hnone, Prog.bind_of_error (run_onKernel_error hrun) _⟩
  · exact .inr (.inl ⟨hnone, t, hv, (Prog.bind_of_ok (run_onKernel hrun) _).trans rfl⟩)
  · exact .inr (.inr (.inl ⟨hno, t, hv, (Prog.bind_of_ok (run_onKernel hrun) _).trans rfl⟩))
  · exact .inr (.inr (.inr ⟨no, q, t, hno, ho, (Prog.bind_of_ok (run_onKernel hrun) _).trans rfl⟩))

omit [DecidableEq P] in
/-- Streams of the root directory do not count. -/
theorem Counted.setStreams (h : Counted p s) {streams : List Nat}
    (hs : ∀ q, q ≠ s.kernel.fs.root_dir_inode → streams.count q = s.streams.count q) :
    Counted p { s with streams := streams } where
  rooted := h.rooted
  count := fun q hq => by
    rw [h.count q hq]
    show _ = _ + streams.count q
    rw [hs q hq]
    rfl
  slot := h.slot
  slot_inj := h.slot_inj

theorem Counted.opendir (h : Counted p s)
    (hsafe : ∀ no, s.kernel.fs.resolve 0 path = some no → no = 0) : Ends p s (.opendir path) := by
  obtain ⟨m, hm⟩ := h.rooted.fs
  obtain ⟨hunfit, -, hrun⟩ | ⟨-, t, hv, hrun⟩ | ⟨-, t, hv, hrun⟩ | ⟨no, q, t, hno, ho, -⟩ :=
    h.opendir_run path
  · exact .overruns hunfit fun _ => hrun
  · exact .returns (fun _ => hrun) (h.keep ⟨m, hv.rootDir hm⟩ hv.sameObjects)
  · refine .returns (fun _ => hrun) ((h.keep ⟨m, hv.rootDir hm⟩ hv.sameObjects).setStreams fun q hq => ?_)
    exact List.count_cons_of_ne (fun heq => hq (heq.symm.trans hv.root.symm))
  · exact absurd (hsafe no hno) ho.ne_zero

theorem Counted.closedir (h : Counted p s) (k : Nat) : Ends p s (.closedir k) := by
  obtain ⟨m, hm⟩ := h.rooted.fs
  by_cases hk : k < s.streams.length
  · have hget : s.streams[k]? = some s.streams[k] := List.getElem?_eq_getElem hk
    have hcount : ∀ q, (s.streams.eraseIdx k).count q + (if q = s.streams[k] then 1 else 0) =
        s.streams.count q := by
      intro q
      have hperm := (List.getElem_cons_eraseIdx_perm hk).count_eq q
      rw [List.count_cons] at hperm
      by_cases hq : q = s.streams[k]
      · rw [if_pos (beq_iff_eq.2 hq.symm)] at hperm
        rw [if_pos hq, hperm]
      · rw [if_neg fun heq => hq (beq_iff_eq.1 heq).symm] at hperm
        rw [if_neg hq, hperm]
    have hrun : ∀ r, (if s.streams[k] = s.kernel.fs.root_dir_inode then pure () else
        onKernel (onFs (inodeClose s.streams[k])) : Prog (Session P) Unit)
          { s with streams := s.streams.eraseIdx k } = r → sysClosedir k s = r := by
      rintro r rfl
      unfold sysClosedir
      rw [Prog.bind_of_ok (a := s) (t := s) rfl, hget]
      rfl
    by_cases hroot : s.streams[k] = s.kernel.fs.root_dir_inode
    · refine .returns (fun _ => hrun _ (by rw [if_pos hroot]; rfl)) (h.setStreams fun q hq => ?_)
      rw [← hcount q, if_neg fun heq => hq (heq.trans hroot)]
      rfl
    · have hpos : 0 < s.refs s.streams[k] := by
        have hmem : 0 < s.streams.count s.streams[k] := List.count_pos_iff.2 (List.getElem_mem hk)
        exact Nat.add_pos_right _ hmem
      obtain ⟨t, hclose⟩ := inodeClose_run (h.live hpos)
      have htaken := taken_of_inodeClose hm.dir.inv.table hclose
      refine .returns (fun _ => hrun _ ?_) (t := { { s with kernel := { s.kernel with fs := t } } with
        streams := s.streams.eraseIdx k }) ?_
      · rw [if_neg hroot]
        exact run_onKernel (s := { s with streams := s.streams.eraseIdx k }) (run_onFs hclose)
      · refine ⟨h.rooted.congr rfl ⟨m, hm.close hclose⟩, fun q hq => ?_, h.slot, h.slot_inj⟩
        have htook := htaken.count q hq
        have hwas := h.count q fun heq => hq (heq.trans htaken.root)
        have hq' := hcount q
        show t.countAt q = countTo (fun i => (s.kernel.file_table i).fd_inode) (List.range MAX_FILES_OPEN) q +
          (s.streams.eraseIdx k).count q
        unfold refs at hwas
        omega
  · refine .overruns hk fun _ => ?_
    show sysClosedir k s = _
    unfold sysClosedir
    rw [Prog.bind_of_ok (a := s) (t := s) rfl, List.getElem?_eq_none (Nat.le_of_not_lt hk)]
    rfl

omit [DecidableEq P] in
/-- Unlinking a file that is not open clears no slot. -/
theorem Counted.clearSlots_eq {no q : Nat} {t : FS} (h : Counted p s)
    (hreg : (Op.unlink path).Regular s) (hres : s.kernel.fs.resolve 0 path = some no)
    (hfound : Found s.kernel.fs (some no) (some q) t) :
    clearSlots s.kernel.file_table q = s.kernel.file_table := by
  obtain ⟨m, hm⟩ := h.rooted.fs
  funext idx
  unfold clearSlots
  rw [if_neg]
  rintro ⟨hidx, hq⟩
  obtain ⟨i, hi⟩ : ∃ i, s.kernel.fs.inodes q = some i := by
    obtain hroot | hcount := h.live (slot_refs hidx hq)
    · obtain ⟨r, hr, -⟩ := hm.object
      exact ⟨r, hroot ▸ hr⟩
    · cases hi : s.kernel.fs.inodes q with
      | none => exact absurd (FS.countAt_none hi) hcount
      | some i => exact ⟨i, rfl⟩
  exact hreg no hres idx hidx q i hq hi (hfound.no_eq hm hi)

theorem Counted.unlink (h : Counted p s) (hreg : (Op.unlink path).Regular s)
    (hsafe : (Op.unlink path).Safe s) : Ends p s (.unlink path) := by
  obtain ⟨m, hm⟩ := h.rooted.fs
  obtain ⟨hunfit, -, hrun⟩ | ⟨-, t, hv, hrun⟩ | ⟨no, q, u, hres, hfound, ⟨-, t, hv, hrun⟩ |
    ⟨no', q', v, t, hlast, hne, hzero, -⟩ | ⟨no', -, -, hrun⟩⟩ := h.rooted.sysUnlink_cases hm p path
  · exact .overruns hunfit fun mapped => run_drop_error (hrun mapped)
  · exact .returns (fun mapped => run_drop (hrun mapped)) (h.keep ⟨m, hv.rootDir hm⟩ hv.sameObjects)
  · rw [h.clearSlots_eq hreg hres hfound] at hrun
    exact .returns (fun mapped => run_drop (hrun mapped)) (h.keep ⟨m, hv.rootDir hm⟩ hv.sameObjects)
  · exact absurd hzero ((hsafe no' hlast).resolve_left hne)
  · exact .panics fun mapped => run_drop_error (hrun mapped)

/-- How every call ends that does not go wrong. -/
theorem Counted.ends {c : Op} (h : Counted p s) (hreg : c.Regular s) (hsafe : c.Safe s) : Ends p s c := by
  cases c with
  | «open» path flag =>
      by_cases hflag : flag &&& O_CREAT = O_CREAT
      · exact h.create path hflag
      · exact h.open_file hflag (hsafe.resolve_left hflag)
  | close fd => exact h.close fd
  | opendir path => exact h.opendir hsafe
  | closedir k => exact h.closedir k
  | stat path => exact h.stat path
  | unlink path => exact h.unlink hreg hsafe

/-! ## The calls that go wrong -/

omit [DecidableEq P] in
/-- What a search opened and nobody refers to. -/
theorem Counted.leak {no q : Nat} {t : FS} (h : Counted p s) (ho : Opened s.kernel.fs no q t) :
    ¬ CountsExact { s with kernel := { s.kernel with fs := t } } := by
  obtain ⟨m, hm⟩ := h.rooted.fs
  intro hexact
  obtain ⟨-, -, -, ht⟩ := ho.openedOne hm
  obtain ⟨j, hj, -⟩ := ho.object hm
  obtain ⟨i, hi, hcount, -⟩ := hexact q ((ht.dir.inv.table.mem_iff q).2 ⟨j, hj⟩) (ho.ne_root hm)
  have hne : q ≠ s.kernel.fs.root_dir_inode := (ho.others hm).1 ▸ ho.ne_root hm
  have htook := (ho.taken hm).count q hne
  have hwas := h.count q hne
  have hnow : t.countAt q = s.refs q := (FS.countAt_some hi).trans hcount
  rw [if_pos rfl] at htook
  omega

theorem Counted.not_sound_open {flag no : Nat} (h : Counted p s) (hflag : flag &&& O_CREAT ≠ O_CREAT)
    (hfull : getFreeSlotInGlobal s.kernel = none) (hres : s.kernel.fs.resolve 0 path = some no)
    (hne : no ≠ 0) : ¬ Sound p s (.open path flag) := by
  have hcall : sysOpen p path flag = fileOpen p path flag := if_neg hflag
  obtain ⟨-, hnone, -⟩ | ⟨r, t, hfound, hcase⟩ := h.rooted.fileOpen p path flag
  · rw [hnone] at hres
    cases hres
  · rw [hres] at hfound
    cases hfound with
    | root => exact absurd rfl hne
    | file ho =>
        obtain ⟨heq, -⟩ | ⟨q, -, ⟨-, hopen⟩ | ⟨idx, fd, fdt, hidx, -⟩⟩ := hcase
        · cases heq
        · rw [← hcall] at hopen
          exact fun hsound => h.leak ho (hsound.exact _ (run_drop hopen))
        · rw [hfull] at hidx
          cases hidx

theorem Counted.not_sound_opendir {no : Nat} (h : Counted p s)
    (hres : s.kernel.fs.resolve 0 path = some no) (hne : no ≠ 0) : ¬ Sound p s (.opendir path) := by
  obtain ⟨-, hnone, -⟩ | ⟨hnone, -⟩ | ⟨hzero, -⟩ | ⟨no', q, t, -, ho, hrun⟩ := h.opendir_run path
  · rw [hnone] at hres
    cases hres
  · rw [hnone] at hres
    cases hres
  · rw [hzero] at hres
    cases hres
    exact absurd rfl hne
  · exact fun hsound => h.leak ho (hsound.exact _ hrun)

theorem Counted.not_sound_unlink {no : Nat} (h : Counted p s)
    (hlast : s.kernel.fs.lastNo 0 path = some no) (hne : no ≠ 0) (hzero : s.kernel.fs.openCount no = 0) :
    ¬ Sound p s (.unlink path) := by
  obtain ⟨m, hm⟩ := h.rooted.fs
  have hres := hm.resolve_of_lastNo hlast
  obtain ⟨-, hnone, -⟩ | ⟨hnone, -⟩ | ⟨no1, q, u, -, -, ⟨hnone, -⟩ |
    ⟨no', q', v, t, -, -, -, -, -, -, -, -, hrun⟩ | ⟨no', hlast', hwhy, -⟩⟩ :=
    h.rooted.sysUnlink_cases hm p path
  · exact absurd hnone hres
  · exact absurd hnone hres
  · rw [hlast] at hnone
    cases hnone
  · intro hsound
    have hstop : (Op.unlink path).run false p s = .error .undefined := run_drop_error (hrun false)
    have hret := hsound.unfreed _ (run_drop (hrun true))
    rw [hstop] at hret
    cases hret
  · rw [hlast] at hlast'
    cases hlast'
    exact absurd hzero (hwhy.resolve_left hne)

theorem Counted.sound_iff {c : Op} (h : Counted p s) (hreg : c.Regular s) : Sound p s c ↔ c.Safe s := by
  refine ⟨fun hsound => ?_, fun hsafe => (h.ends hreg hsafe).sound⟩
  cases c with
  | «open» path flag =>
      by_contra hunsafe
      obtain ⟨hflag, hunsafe⟩ := not_or.1 hunsafe
      obtain ⟨hfull, hres⟩ := not_or.1 hunsafe
      obtain ⟨no, hres⟩ := not_forall.1 hres
      obtain ⟨hres, hne⟩ := Classical.not_imp.1 hres
      exact h.not_sound_open hflag (not_not.1 hfull) hres hne hsound
  | close fd => exact trivial
  | opendir path =>
      intro no hres
      by_contra hne
      exact h.not_sound_opendir hres hne hsound
  | closedir k => exact trivial
  | stat path => exact trivial
  | unlink path =>
      intro no hlast
      by_contra hunsafe
      obtain ⟨hne, hcount⟩ := not_or.1 hunsafe
      exact h.not_sound_unlink hlast hne (not_not.1 hcount) hsound

/-! ## Runs -/

/-- The kernel has just started, and the process has no stream. -/
structure Booted (s : Session P) : Prop where
  kernel : Kernel.Booted s.kernel
  streams : s.streams = []

/-- A call that returns. -/
def Step (p : P) (s : Session P) (c : Op) (s' : Session P) : Prop :=
  c.Regular s ∧ ∃ mapped, c.run mapped p s = .ok ((), s')

/-- A call that does not go wrong. -/
def SafeStep (p : P) (s : Session P) (c : Op) (s' : Session P) : Prop := Step p s c s' ∧ c.Safe s

omit [DecidableEq P] in
theorem Booted.counted (h : Booted s) : Counted p s := by
  have hrooted := h.kernel.rooted
  obtain ⟨part, disk, hmounted⟩ := h.kernel.mounted
  refine ⟨hrooted, fun q hq => ?_, fun fd idx hfd => ?_, fun fd fd' idx hfd => ?_⟩
  · obtain ⟨t, -, -, hinodes, -, heq⟩ := filesysInit_eq hmounted
    rw [heq] at hq ⊢
    have hclosed : (t.loadInode 0).inodes q = none := by
      unfold FS.loadInode
      exact (Function.update_of_ne hq _ _).trans (congrFun hinodes q)
    have hslots : countTo (fun i => (s.kernel.file_table i).fd_inode) (List.range MAX_FILES_OPEN) q = 0 := by
      refine List.countP_eq_zero.2 fun i _ hi => ?_
      have hset : (s.kernel.file_table i).fd_inode = some q := of_decide_eq_true hi
      rw [h.kernel.file_table] at hset
      cases hset
    unfold refs
    rw [hslots, h.streams]
    exact FS.countAt_none hclosed
  · rw [h.kernel.fd_table] at hfd
    cases hfd
  · rw [h.kernel.fd_table] at hfd
    cases hfd

theorem Counted.step {c : Op} (h : Counted p s) (hstep : SafeStep p s c s') : Counted p s' := by
  obtain ⟨⟨hreg, mapped, hrun⟩, hsafe⟩ := hstep
  exact (h.ends hreg hsafe).counted hrun

/-- In every run whose calls do not go wrong the counts are exact, and the next call does what it must if
    and only if it does not go wrong either. -/
theorem open_counts_iff {s0 : Session P} {cs : List Op} (h : Booted s0) (hrun : Run (SafeStep p) s0 cs s) :
    s.CountsExact ∧ ∀ c : Op, c.Regular s → (Sound p s c ↔ c.Safe s) := by
  have hs : Counted p s := hrun.invariant (fun _ _ _ hI hstep => hI.step hstep) h.counted
  exact ⟨hs.exact, fun _ hreg => hs.sound_iff hreg⟩

/-- A file was created. -/
theorem exists_session : ∃ (s0 s : Session Unit) (no : Nat), s0.Booted ∧
    Run (SafeStep ()) s0 [.open [97] O_CREAT] s ∧ s.kernel.fs.resolve 0 [97] = some no ∧ no ≠ 0 := by
  obtain ⟨k, hk⟩ := exists_booted
  have hfit : FitsPath [97] := fitsPath_of_length (by decide)
  obtain ⟨fd, t, hrun⟩ : ∃ fd t, fileCreate () [97] O_CREAT k = .ok (some fd, t) :=
    hk.fileCreate () hfit (by decide) (Option.some_ne_none (0, [97])) (by decide) (by decide)
  have hopen : sysOpen () [97] O_CREAT k = .ok (some fd, t) := hrun
  have hstep : SafeStep () ⟨k, []⟩ (.open [97] O_CREAT) ⟨t, []⟩ :=
    ⟨⟨trivial, true, run_drop (s := ⟨k, []⟩) hopen⟩, .inl rfl⟩
  obtain ⟨-, hcreate⟩ | ⟨idx, m, -, hm, ⟨hunfit, -⟩ | ⟨u, hcreate, -⟩ |
    ⟨no, u, fd', fdt, hc, -, hcreate⟩⟩ := hk.rooted.fileCreate () [97] O_CREAT
  · rw [hcreate] at hrun
    cases hrun
  · exact absurd hfit hunfit
  · rw [hcreate] at hrun
    cases hrun
  · rw [hcreate] at hrun
    cases hrun
    refine ⟨_, _, no, ⟨hk, rfl⟩, .single hstep, hc.resolve hm hfit (by decide), ?_⟩
    rintro rfl
    exact hc.fresh hm.allocated_zero

/-- Creating `a` goes well. -/
theorem open_counts_create : ∃ s0 s : Session Unit, s0.Booted ∧
    Run (SafeStep ()) s0 [.open [97] O_CREAT] s ∧ s.CountsExact := by
  obtain ⟨s0, s, no, h0, hrun, -⟩ := exists_session
  exact ⟨s0, s, h0, hrun, (open_counts_iff h0 hrun).1⟩

/-- Opening it as a directory does not. -/
theorem not_open_counts_opendir : ∃ (s0 s t : Session Unit) (cs : List Op), s0.Booted ∧
    Run (Step ()) s0 cs s ∧ Step () s (.opendir [97]) t ∧ ¬ t.CountsExact := by
  obtain ⟨s0, s, no, h0, hrun, hres, hne⟩ := exists_session
  have hs : Counted () s := hrun.invariant (fun _ _ _ hI hstep => hI.step hstep) h0.counted
  obtain ⟨-, hnone, -⟩ | ⟨hnone, -⟩ | ⟨hzero, -⟩ | ⟨no', q, t, -, ho, hopendir⟩ := hs.opendir_run [97]
  · rw [hnone] at hres
    cases hres
  · rw [hnone] at hres
    cases hres
  · rw [hzero] at hres
    cases hres
    exact absurd rfl hne
  · exact ⟨s0, s, _, _, h0, hrun.mono fun _ _ _ hstep => hstep.1, ⟨trivial, true, hopendir⟩, hs.leak ho⟩

end Session

end RecoverOS
