import RecoverOS.Base.Run
import RecoverOS.Fs.Format
import RecoverOS.Fs.Proofs.Lifecycle

set_option autoImplicit false

/-! # Two threads that run `inode_sync`

`inode_sync` reads the two sectors around a record, changes the record and writes the sectors back.
Records of 160 bytes share their sectors, and the two threads hold different inodes, so no lock keeps
one of them from reading or writing between the read and the write of the other. -/

namespace RecoverOS

namespace InodeTable

/-! ## The code, cut where a thread may be switched out -/

/-- `inode_sync` up to its `ide_write`: `io_buf` with the new record in it. -/
def readRecord (pure_inode : Inode) : Prog FS Buf := do
  let inode_pos ← inodeLocate pure_inode.i_no
  sysMalloc
  let io_buf ← ideRead inode_pos.lba Buf.zero 0 2
  pure (io_buf.patch inode_pos.off_size sizeofInode pure_inode.encode)

/-- `inode_sync` from its `ide_write` on. -/
def writeRecord (pure_inode : Inode) (io_buf : Buf) : Prog FS Unit := do
  let inode_pos ← inodeLocate pure_inode.i_no
  ideWrite inode_pos.lba io_buf 2
  sysFree

/-- Where the sectors of record `no` start on the disk. -/
def windowAddr (s : FS) (no : Nat) : Nat := 512 * (s.sb.inode_table_lba + 160 * no / 512)

/-- Byte `a` of the disk is in one of the two sectors that `inode_sync` writes for record `no`. -/
def InWindow (s : FS) (no a : Nat) : Prop := windowAddr s no ≤ a ∧ a < windowAddr s no + 1024

instance (s : FS) (no a : Nat) : Decidable (InWindow s no a) := by
  unfold InWindow
  infer_instance

/-- `io_buf` once the sectors were read from `disk` and the record changed. -/
def ioBuf (s : FS) (i : Inode) (disk : Buf) : Buf :=
  (Buf.zero.patch 0 1024 (disk.from (windowAddr s i.i_no))).patch (160 * i.i_no % 512) 160 i.encode

/-- `disk` after the sectors were written back, which were read when it was `old`. -/
def stored (s : FS) (i : Inode) (old disk : Buf) : Buf :=
  disk.patch (windowAddr s i.i_no) 1024 (ioBuf s i old)

theorem inodeLocate_eq_ok {no : Nat} {pos : InodePosition} {s s' : FS}
    (h : inodeLocate no s = .ok (pos, s')) :
    pos = ⟨s.sb.inode_table_lba + 160 * no / 512, 160 * no % 512⟩ ∧ s' = s := by
  unfold inodeLocate at h
  obtain ⟨⟨⟩, s1, hassert, h⟩ := Prog.bind_eq_ok.1 h
  obtain ⟨-, rfl⟩ := Prog.assert_eq_ok.1 hassert
  cases h
  exact ⟨rfl, rfl⟩

/-- A call of `inode_sync` that is not interrupted. -/
theorem inodeSync_eq (inode : Nat) : inodeSync inode = (do
    let pure_inode ← inodeAt inode
    let io_buf ← readRecord pure_inode
    writeRecord pure_inode io_buf) := by
  funext s
  unfold inodeSync
  cases hat : inodeAt inode s with
  | error e => rw [Prog.bind_of_error hat, Prog.bind_of_error hat]
  | ok r =>
      obtain ⟨i, s1⟩ := r
      rw [Prog.bind_of_ok hat, Prog.bind_of_ok hat]
      unfold readRecord writeRecord
      by_cases hno : i.i_no < MAX_FILES_PER_PART
      · rw [Prog.bind_of_ok (inodeLocate_run hno)]
        have hread := Prog.bind_of_ok (inodeLocate_run (s := s1) hno) fun pos => do
          sysMalloc
          let io_buf ← ideRead pos.lba Buf.zero 0 2
          pure (io_buf.patch pos.off_size sizeofInode i.encode)
        rw [Prog.bind_of_ok (hread.trans rfl), Prog.bind_of_ok (inodeLocate_run hno)]
        rfl
      · have hloc : inodeLocate i.i_no s1 = .error .panic := by
          unfold inodeLocate Prog.assert
          rw [if_neg hno]
          rfl
        rw [Prog.bind_of_error hloc, Prog.bind_of_error (Prog.bind_of_error hloc _)]

/-! ## The threads -/

/-- Where a thread is in `inode_sync`. -/
inductive Pc where
  /-- Before `ide_read`. -/
  | start
  /-- Before `ide_write`. -/
  | read (io_buf : Buf)
  | done

/-- The two threads are `false` and `true`. -/
structure State where
  fs : FS
  pc : Bool → Pc

inductive Label where
  | read (t : Bool)
  | write (t : Bool)
  deriving DecidableEq

/-- A step of one of the threads; `inode t` is what thread `t` stores. -/
inductive Step (inode : Bool → Inode) : State → Label → State → Prop where
  | read {s t fs io_buf} (hpc : s.pc t = .start)
      (hrun : readRecord (inode t) s.fs = .ok (io_buf, fs)) :
      Step inode s (.read t) { fs := fs, pc := Function.update s.pc t (.read io_buf) }
  | write {s t fs io_buf} (hpc : s.pc t = .read io_buf)
      (hrun : writeRecord (inode t) io_buf s.fs = .ok ((), fs)) :
      Step inode s (.write t) { fs := fs, pc := Function.update s.pc t .done }

/-- Thread `t` writes after the other thread has read and before it writes. -/
def Overlapped (ls : List Label) (t : Bool) : Prop :=
  [Label.read (!t), .write t, .write (!t)].Sublist ls

instance (ls : List Label) (t : Bool) : Decidable (Overlapped ls t) := by
  unfold Overlapped
  infer_instance

section Proofs

variable {inode : Bool → Inode} {s s' : State} {ls : List Label}

theorem readRecord_eq_ok {i : Inode} {buf : Buf} {s s' : FS} (h : readRecord i s = .ok (buf, s')) :
    buf = ioBuf s i s.disk ∧ s'.disk = s.disk ∧ s'.sb = s.sb := by
  unfold readRecord at h
  obtain ⟨pos, s1, hloc, h⟩ := Prog.bind_eq_ok.1 h
  obtain ⟨rfl, rfl⟩ := inodeLocate_eq_ok hloc
  cases h
  exact ⟨rfl, rfl, rfl⟩

theorem writeRecord_eq_ok {i : Inode} {buf : Buf} {s s' : FS}
    (h : writeRecord i buf s = .ok ((), s')) :
    s'.disk = s.disk.patch (windowAddr s i.i_no) 1024 buf ∧ s'.sb = s.sb := by
  unfold writeRecord at h
  obtain ⟨pos, s1, hloc, h⟩ := Prog.bind_eq_ok.1 h
  obtain ⟨rfl, rfl⟩ := inodeLocate_eq_ok hloc
  cases h
  exact ⟨rfl, rfl⟩

/-! ### What a write leaves in the table -/

theorem stored_record (s : FS) (i : Inode) (old disk : Buf) {k : Nat} (hk : k < 160) :
    stored s i old disk (s.recordAddr i.i_no + k) = i.encode k := by
  have haddr : s.recordAddr i.i_no + k = windowAddr s i.i_no + (160 * i.i_no % 512 + k) := by
    unfold FS.recordAddr windowAddr
    omega
  rw [haddr]
  refine (Buf.from_patch_same _ _ _ _ (by omega)).trans ?_
  exact Buf.from_patch_same _ _ _ _ hk

/-- The rest of the window gets the bytes it had when it was read. -/
theorem stored_window {s : FS} {i : Inode} {no : Nat} (old disk : Buf) {k : Nat} (hk : k < 160)
    (hne : no ≠ i.i_no) (h : InWindow s i.i_no (s.recordAddr no + k)) :
    stored s i old disk (s.recordAddr no + k) = old (s.recordAddr no + k) := by
  obtain ⟨h1, h2⟩ := h
  have hapart := FS.recordAddr_apart (s := s) hne
  have haddr : s.recordAddr i.i_no = windowAddr s i.i_no + 160 * i.i_no % 512 := by
    unfold FS.recordAddr windowAddr
    omega
  obtain ⟨j, hj⟩ := Nat.exists_eq_add_of_le h1
  rw [hj] at h2 ⊢
  refine (Buf.from_patch_same _ _ _ _ (by omega)).trans ?_
  refine (Buf.patch_outside _ _ (by omega)).trans ?_
  exact Buf.patch_start _ _ _ (by omega)

theorem stored_outside {s : FS} {i : Inode} {a : Nat} (old disk : Buf) (h : ¬ InWindow s i.i_no a) :
    stored s i old disk a = disk a := by
  unfold InWindow at h
  exact Buf.patch_outside _ _ (by omega)

/-- Reading the sectors first keeps the other records. -/
theorem stored_other {s : FS} {i : Inode} {no : Nat} (disk : Buf) {k : Nat} (hk : k < 160)
    (hne : no ≠ i.i_no) : stored s i disk disk (s.recordAddr no + k) = disk (s.recordAddr no + k) := by
  by_cases h : InWindow s i.i_no (s.recordAddr no + k)
  · exact stored_window _ _ hk hne h
  · exact stored_outside _ _ h

/-! ### The runs of the two threads -/

/-- How far the threads have come after the steps `ls`, and what is on the disk. -/
inductive Shape (inode : Bool → Inode) (s : State) : List Label → State → Prop where
  | none {s' : State} (hsb : s'.fs.sb = s.fs.sb) (hdisk : s'.fs.disk = s.fs.disk)
      (hpc : ∀ t, s'.pc t = .start) : Shape inode s [] s'
  | read {s' : State} {t : Bool} (hsb : s'.fs.sb = s.fs.sb) (hdisk : s'.fs.disk = s.fs.disk)
      (hpc : s'.pc t = .read (ioBuf s.fs (inode t) s.fs.disk)) (hpc' : s'.pc (!t) = .start) :
      Shape inode s [.read t] s'
  | serial1 {s' : State} {t : Bool} (hsb : s'.fs.sb = s.fs.sb)
      (hdisk : s'.fs.disk = stored s.fs (inode t) s.fs.disk s.fs.disk)
      (hpc : s'.pc t = .done) (hpc' : s'.pc (!t) = .start) : Shape inode s [.read t, .write t] s'
  | serial2 {s' : State} {t : Bool} (hsb : s'.fs.sb = s.fs.sb)
      (hdisk : s'.fs.disk = stored s.fs (inode t) s.fs.disk s.fs.disk) (hpc : s'.pc t = .done)
      (hpc' : s'.pc (!t) = .read (ioBuf s.fs (inode (!t)) s'.fs.disk)) :
      Shape inode s [.read t, .write t, .read (!t)] s'
  | serial {s' : State} {t : Bool} {disk : Buf} (hsb : s'.fs.sb = s.fs.sb)
      (hfirst : disk = stored s.fs (inode t) s.fs.disk s.fs.disk)
      (hdisk : s'.fs.disk = stored s.fs (inode (!t)) disk disk) (hpc : ∀ t, s'.pc t = .done) :
      Shape inode s [.read t, .write t, .read (!t), .write (!t)] s'
  | overlap1 {s' : State} {t : Bool} (hsb : s'.fs.sb = s.fs.sb) (hdisk : s'.fs.disk = s.fs.disk)
      (hpc : ∀ t, s'.pc t = .read (ioBuf s.fs (inode t) s.fs.disk)) :
      Shape inode s [.read t, .read (!t)] s'
  | overlap2 {s' : State} {t u : Bool} (hsb : s'.fs.sb = s.fs.sb)
      (hdisk : s'.fs.disk = stored s.fs (inode u) s.fs.disk s.fs.disk) (hpc : s'.pc u = .done)
      (hpc' : s'.pc (!u) = .read (ioBuf s.fs (inode (!u)) s.fs.disk)) :
      Shape inode s [.read t, .read (!t), .write u] s'
  | overlap {s' : State} {t u : Bool} (hsb : s'.fs.sb = s.fs.sb)
      (hdisk : s'.fs.disk = stored s.fs (inode (!u)) s.fs.disk
        (stored s.fs (inode u) s.fs.disk s.fs.disk)) (hpc : ∀ t, s'.pc t = .done) :
      Shape inode s [.read t, .read (!t), .write u, .write (!u)] s'

theorem windowAddr_congr {s s' : FS} (h : s'.sb = s.sb) (no : Nat) :
    windowAddr s' no = windowAddr s no := by
  unfold windowAddr
  rw [h]

theorem ioBuf_congr {s s' : FS} (h : s'.sb = s.sb) (i : Inode) (disk : Buf) :
    ioBuf s' i disk = ioBuf s i disk := by
  unfold ioBuf
  rw [windowAddr_congr h]

theorem writeRecord_stored {s0 s s' : FS} {i : Inode} {buf old : Buf} (hsb : s.sb = s0.sb)
    (hrun : writeRecord i buf s = .ok ((), s')) (hbuf : buf = ioBuf s0 i old) :
    s'.disk = stored s0 i old s.disk := by
  rw [(writeRecord_eq_ok hrun).1, windowAddr_congr hsb, hbuf]
  rfl

theorem Step.shape {s0 : State} {l : Label} (hshape : Shape inode s0 ls s)
    (hstep : Step inode s l s') : Shape inode s0 (ls ++ [l]) s' := by
  cases hstep with
  | @read t fs io_buf hpct hrun =>
      obtain ⟨rfl, hfs, hfsb⟩ := readRecord_eq_ok hrun
      cases hshape with
      | none hsb hdisk hpc =>
          refine .read (hfsb.trans hsb) (hfs.trans hdisk) ?_ ?_
          · simp [ioBuf_congr hsb, hdisk]
          · simp [hpc]
      | @read _ u hsb hdisk hpc hpc' =>
          rcases Bool.eq_or_eq_not t u with rfl | rfl
          · simp [hpc] at hpct
          · refine .overlap1 (hfsb.trans hsb) (hfs.trans hdisk) fun v => ?_
            rcases Bool.eq_or_eq_not v u with rfl | rfl
            · simp [hpc]
            · simp [ioBuf_congr hsb, hdisk]
      | @serial1 _ u hsb hdisk hpc hpc' =>
          rcases Bool.eq_or_eq_not t u with rfl | rfl
          · simp [hpc] at hpct
          · refine .serial2 (hfsb.trans hsb) (hfs.trans hdisk) ?_ ?_
            · simp [hpc]
            · simp [ioBuf_congr hsb, hfs]
      | @serial2 _ u hsb hdisk hpc hpc' =>
          rcases Bool.eq_or_eq_not t u with rfl | rfl
          · simp [hpc] at hpct
          · simp [hpc'] at hpct
      | serial hsb hfirst hdisk hpc => simp [hpc] at hpct
      | overlap1 hsb hdisk hpc => simp [hpc] at hpct
      | @overlap2 _ _ u hsb hdisk hpc hpc' =>
          rcases Bool.eq_or_eq_not t u with rfl | rfl
          · simp [hpc] at hpct
          · simp [hpc'] at hpct
      | overlap hsb hdisk hpc => simp [hpc] at hpct
  | @write t fs io_buf hpct hrun =>
      have hfsb := (writeRecord_eq_ok hrun).2
      cases hshape with
      | none hsb hdisk hpc => simp [hpc] at hpct
      | @read _ u hsb hdisk hpc hpc' =>
          rcases Bool.eq_or_eq_not t u with rfl | rfl
          · have hbuf := Pc.read.inj (hpct.symm.trans hpc)
            refine .serial1 (hfsb.trans hsb) ?_ (by simp) (by simp [hpc'])
            rw [← hdisk] at hbuf ⊢
            exact writeRecord_stored hsb hrun hbuf
          · simp [hpc'] at hpct
      | @serial1 _ u hsb hdisk hpc hpc' =>
          rcases Bool.eq_or_eq_not t u with rfl | rfl
          · simp [hpc] at hpct
          · simp [hpc'] at hpct
      | @serial2 _ u hsb hdisk hpc hpc' =>
          rcases Bool.eq_or_eq_not t u with rfl | rfl
          · simp [hpc] at hpct
          · have hbuf := Pc.read.inj (hpct.symm.trans hpc')
            refine .serial (hfsb.trans hsb) hdisk (writeRecord_stored hsb hrun hbuf) fun v => ?_
            rcases Bool.eq_or_eq_not v u with rfl | rfl
            · simp [hpc]
            · simp
      | serial hsb hfirst hdisk hpc => simp [hpc] at hpct
      | overlap1 hsb hdisk hpc =>
          have hbuf := Pc.read.inj (hpct.symm.trans (hpc t))
          refine .overlap2 (hfsb.trans hsb) ?_ (by simp) (by simp [hpc])
          have hstored := writeRecord_stored hsb hrun hbuf
          rwa [hdisk] at hstored
      | @overlap2 _ _ u hsb hdisk hpc hpc' =>
          rcases Bool.eq_or_eq_not t u with rfl | rfl
          · simp [hpc] at hpct
          · have hbuf := Pc.read.inj (hpct.symm.trans hpc')
            refine .overlap (hfsb.trans hsb) ?_ fun v => ?_
            · have hstored := writeRecord_stored hsb hrun hbuf
              rwa [hdisk] at hstored
            · rcases Bool.eq_or_eq_not v u with rfl | rfl
              · simp [hpc]
              · simp
      | overlap hsb hdisk hpc => simp [hpc] at hpct

theorem shape_of_run (hpc : ∀ t, s.pc t = .start) (hrun : Run (Step inode) s ls s') :
    Shape inode s ls s' := by
  induction hrun with
  | nil => exact .none rfl rfl hpc
  | snoc _ hlast ih => exact hlast.shape ih

/-- Record `t` after both threads are done: its new contents, or what the other thread read before. -/
theorem record_after {t : Bool} (hne : (inode false).i_no ≠ (inode true).i_no)
    (hpc : ∀ t, s.pc t = .start) (hrun : Run (Step inode) s ls s') (hdone : ∀ t, s'.pc t = .done)
    {k : Nat} (hk : k < 160) : s'.fs.disk (s.fs.recordAddr (inode t).i_no + k) =
      if Overlapped ls t ∧ InWindow s.fs (inode (!t)).i_no (s.fs.recordAddr (inode t).i_no + k) then
        s.fs.disk (s.fs.recordAddr (inode t).i_no + k)
      else (inode t).encode k := by
  have hne' : ∀ v, (inode v).i_no ≠ (inode (!v)).i_no := by
    intro v
    cases v
    · exact hne
    · exact hne.symm
  cases shape_of_run hpc hrun with
  | none hsb hdisk hp => simp [hp] at hdone
  | @read _ u hsb hdisk hp hp' => simpa [hp] using hdone u
  | @serial1 _ u hsb hdisk hp hp' => simpa [hp'] using hdone (!u)
  | @serial2 _ u hsb hdisk hp hp' => simpa [hp'] using hdone (!u)
  | @overlap1 _ u hsb hdisk hp => simpa [hp] using hdone u
  | @overlap2 _ _ u hsb hdisk hp hp' => simpa [hp'] using hdone (!u)
  | @serial _ u disk hsb hfirst hdisk hp =>
      rw [hdisk, if_neg fun h => absurd h.1 (by cases t <;> cases u <;> decide)]
      rcases Bool.eq_or_eq_not t u with rfl | rfl
      · rw [stored_other _ hk (hne' t), hfirst]
        exact stored_record _ _ _ _ hk
      · exact stored_record _ _ _ _ hk
  | @overlap _ v u hsb hdisk hp =>
      rw [hdisk]
      rcases Bool.eq_or_eq_not t u with rfl | rfl
      · -- this thread wrote first, and then the other wrote what it had read
        have hover : Overlapped [.read v, .read (!v), .write t, .write (!t)] t := by
          cases t <;> cases v <;> decide
        by_cases hw : InWindow s.fs (inode (!t)).i_no (s.fs.recordAddr (inode t).i_no + k)
        · rw [if_pos ⟨hover, hw⟩]
          exact stored_window _ _ hk (hne' t) hw
        · rw [if_neg fun h => hw h.2, stored_outside _ _ hw]
          exact stored_record _ _ _ _ hk
      · rw [if_neg fun h => absurd h.1 (by cases u <;> cases v <;> decide)]
        exact stored_record _ _ _ _ hk

end Proofs

/-! ## When both updates survive -/

/-- Both records have their new contents exactly when no thread writes between the read and the write
    of the other, or the bytes it loses were the same before. -/
theorem both_stored_iff {inode : Bool → Inode} {s s' : State} {ls : List Label}
    (hne : (inode false).i_no ≠ (inode true).i_no) (hpc : ∀ t, s.pc t = .start)
    (hrun : Run (Step inode) s ls s') (hdone : ∀ t, s'.pc t = .done) :
    (∀ t, ∀ k < 160, s'.fs.disk (s.fs.recordAddr (inode t).i_no + k) = (inode t).encode k) ↔
      ∀ t, Overlapped ls t → ∀ k < 160,
        InWindow s.fs (inode (!t)).i_no (s.fs.recordAddr (inode t).i_no + k) →
          s.fs.disk (s.fs.recordAddr (inode t).i_no + k) = (inode t).encode k := by
  constructor
  · intro h t hover k hk hw
    rw [← h t k hk, record_after hne hpc hrun hdone hk, if_pos ⟨hover, hw⟩]
  · intro h t k hk
    rw [record_after hne hpc hrun hdone hk]
    by_cases hlost : Overlapped ls t ∧
        InWindow s.fs (inode (!t)).i_no (s.fs.recordAddr (inode t).i_no + k)
    · rw [if_pos hlost]
      exact h t hlost.1 k hk hlost.2
    · rw [if_neg hlost]

/-! ### Two orders of the same steps -/

/-- Two inodes whose records share a sector, with different sizes. -/
def neighbours (t : Bool) : Inode where
  i_no := if t then 2 else 1
  i_size := 7
  i_open_cnts := 1
  f_type := FT_REGULAR
  i_sectors _ := 0

/-- An inode table of zeros, and both threads about to store their inodes. -/
def bothStart : State where
  fs := FS.boot Buf.zero
  pc _ := .start

theorem readRecord_ok {i : Inode} (h : i.i_no < MAX_FILES_PER_PART) (s : FS) :
    readRecord i s = .ok (ioBuf s i s.disk, { s with live := s.live + 1 }) := by
  unfold readRecord
  rw [Prog.bind_of_ok (inodeLocate_run h)]
  rfl

theorem writeRecord_ok {i : Inode} (h : i.i_no < MAX_FILES_PER_PART) (buf : Buf) (s : FS) :
    writeRecord i buf s = .ok ((), { s with
      disk := s.disk.patch (windowAddr s i.i_no) 1024 buf
      live := s.live - 1 }) := by
  unfold writeRecord
  rw [Prog.bind_of_ok (inodeLocate_run h)]
  rfl

theorem both_stored_iff_serial : ∃ s' : State, ∀ t, ∀ k < 160,
    s'.fs.disk (bothStart.fs.recordAddr (neighbours t).i_no + k) = (neighbours t).encode k := by
  have hrun : ∃ s', Run (Step neighbours) bothStart
      [.read false, .write false, .read true, .write true] s' := by
    refine Run.exists_cons (Step.read rfl (readRecord_ok (by decide) _)) ?_
    refine Run.exists_cons (Step.write rfl (writeRecord_ok (by decide) _ _)) ?_
    refine Run.exists_cons (Step.read rfl (readRecord_ok (by decide) _)) ?_
    exact Run.exists_cons (Step.write rfl (writeRecord_ok (by decide) _ _)) ⟨_, .nil⟩
  obtain ⟨s', hrun⟩ := hrun
  have hdone : ∀ t, s'.pc t = .done := by
    cases shape_of_run (fun _ => rfl) hrun with
    | serial _ _ _ hpc => exact hpc
  refine ⟨s', (both_stored_iff (by decide) (fun _ => rfl) hrun hdone).2 fun t hover => ?_⟩
  exact absurd hover (by cases t <;> decide)

/-- The second thread reads before the first one writes, and undoes its update. -/
theorem not_both_stored_overlapped : ∃ s' ls, Run (Step neighbours) bothStart ls s' ∧
    (∀ t, s'.pc t = .done) ∧
    s'.fs.disk (bothStart.fs.recordAddr (neighbours false).i_no) ≠ (neighbours false).encode 0 := by
  have hrun : ∃ s', Run (Step neighbours) bothStart
      [.read false, .read true, .write false, .write true] s' := by
    refine Run.exists_cons (Step.read rfl (readRecord_ok (by decide) _)) ?_
    refine Run.exists_cons (Step.read rfl (readRecord_ok (by decide) _)) ?_
    refine Run.exists_cons (Step.write rfl (writeRecord_ok (by decide) _ _)) ?_
    exact Run.exists_cons (Step.write rfl (writeRecord_ok (by decide) _ _)) ⟨_, .nil⟩
  obtain ⟨s', hrun⟩ := hrun
  have hdone : ∀ t, s'.pc t = .done := by
    cases shape_of_run (fun _ => rfl) hrun with
    | overlap _ _ hpc => exact hpc
  refine ⟨s', _, hrun, hdone, ?_⟩
  have hzero := record_after (t := false) (k := 0) (by decide) (fun _ => rfl) hrun hdone (by decide)
  rw [if_pos (by decide), Nat.add_zero] at hzero
  rw [hzero]
  decide

end InodeTable

end RecoverOS
