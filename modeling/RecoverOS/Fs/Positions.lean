import RecoverOS.Fs.OpenCounts
import RecoverOS.Fs.Proofs.Sizes

set_option autoImplicit false

/-! # File positions

`sys_read` and `sys_write` add what they return to `fd_pos`, also when that is the error value -1. -/

namespace RecoverOS

/-! ## What a read that returns has returned -/

section Read

variable {s s' : FS} {i : Inode} {p pos count : Nat} {mallocOk : Nat → Bool} {buf : Buf} {r : Int × Buf}

/-- A read from inside the file or from its end finds something to read, or is asked for nothing, and
    there is memory for its buffer. -/
def Readable (mallocOk : Nat → Bool) (i_size count pos : Nat) : Prop :=
  ¬ (pos = i_size ∧ 0 < count ∧ pos + count < 2 ^ 64) ∧ mallocOk (readRequest i_size count pos) = true

/-- `inode_read` at a position inside the file: -1, or a number of bytes that are there. -/
theorem inodeRead_returned (hp : s.inodes p = some i) (hsize : i.i_size ≤ 71680) (hpos : pos ≤ i.i_size)
    (hcount : count < 2 ^ 64) (h : inodeRead mallocOk p buf count pos s = .ok (r, s')) :
    (r.1 = -1 ∧ ¬ Readable mallocOk i.i_size count pos) ∨
      ∃ n : Nat, r.1 = n ∧ pos + n ≤ i.i_size ∧ pos + count < 2 ^ 64 ∧
        Readable mallocOk i.i_size count pos := by
  have hwrap : pos + count < 2 ^ 64 ∨ u64 (pos + count) < pos := by
    by_cases hlt : pos + count < 2 ^ 64
    · exact .inl hlt
    · refine .inr ?_
      unfold u64
      omega
  have hsub : sub64 i.i_size pos = i.i_size - pos := sub64_of_le hpos (by omega)
  have hs64 : s64 (i.i_size - pos) = (i.i_size - pos : Nat) := s64_of_lt (by omega)
  -- at the end of the file nothing is left
  have hend : (i.i_size < u64 (pos + count) ∧ realCount i.i_size count pos ≤ 0) ↔
      (pos = i.i_size ∧ 0 < count ∧ pos + count < 2 ^ 64) := by
    unfold realCount
    constructor
    · rintro ⟨hlt, hle⟩
      rw [if_pos hlt, hsub, hs64] at hle
      obtain hfit | hwrap := hwrap
      · rw [u64_of_lt hfit] at hlt
        omega
      · omega
    · rintro ⟨heq, hc, hfit⟩
      have hlt : i.i_size < u64 (pos + count) := by
        rw [u64_of_lt hfit]
        omega
      refine ⟨hlt, ?_⟩
      rw [if_pos hlt, hsub, hs64]
      omega
  unfold inodeRead at h
  rw [Prog.bind_of_ok (run_inodeAt hp)] at h
  dsimp only at h
  by_cases hcond : i.i_size < u64 (pos + count) ∧ realCount i.i_size count pos ≤ 0
  · rw [if_pos hcond] at h
    cases h
    exact .inl ⟨rfl, fun hr => hr.1 (hend.1 hcond)⟩
  · rw [if_neg hcond] at h
    by_cases hm : mallocOk (readRequest i.i_size count pos) = true
    · have hm' : ¬ mallocOk (readRequest i.i_size count pos) = false := by simp [hm]
      refine .inr ?_
      change (if mallocOk (readRequest i.i_size count pos) = false then _ else _ :
        Prog FS (Int × Buf)) s = _ at h
      rw [if_neg hm'] at h
      obtain ⟨⟨⟩, s1, -, h1⟩ := Prog.bind_eq_ok.1 h
      obtain ⟨all, s2, hall, h2⟩ := Prog.bind_eq_ok.1 h1
      obtain ⟨b, s3, hloop, h3⟩ := Prog.bind_eq_ok.1 h2
      obtain ⟨⟨⟩, s4, hreq, h4⟩ := Prog.bind_eq_ok.1 h3
      obtain ⟨hroom, rfl⟩ := Prog.require_eq_ok.1 hreq
      obtain ⟨⟨⟩, s5, -, h5⟩ := Prog.bind_eq_ok.1 h4
      cases h5
      obtain ⟨hle, hlt⟩ : pos / 512 ≤ divRoundUp64 (u64 (pos + u64OfInt (realCount i.i_size count pos))) 512 ∧
          divRoundUp64 (u64 (pos + u64OfInt (realCount i.i_size count pos))) 512 <
            pos / 512 + (141 - pos / 512) := readLoop_range hloop
      change pos % 512 + _ ≤ u64 (512 * sub64 (divRoundUp64 _ 512) (pos / 512)) at hroom
      generalize divRoundUp64 (u64 (pos + u64OfInt (realCount i.i_size count pos))) 512 = stop
        at hle hlt hroom
      rw [sub64_of_le hle (by omega), u64_of_lt (by omega)] at hroom
      -- the count fits the buffer, so it is not negative
      obtain ⟨x, hx, hrc, hxval⟩ : ∃ x < 2 ^ 64, realCount i.i_size count pos = s64 x ∧
          ((x = i.i_size - pos ∧ i.i_size < u64 (pos + count)) ∨
            (x = count ∧ u64 (pos + count) ≤ i.i_size)) := by
        unfold realCount
        by_cases hlt : i.i_size < u64 (pos + count)
        · exact ⟨i.i_size - pos, by omega, by rw [if_pos hlt, hsub], .inl ⟨rfl, hlt⟩⟩
        · exact ⟨count, hcount, by rw [if_neg hlt], .inr ⟨rfl, Nat.not_lt.1 hlt⟩⟩
      rw [hrc, u64OfInt_s64 hx] at hroom
      refine ⟨x, ?_, ?_, ?_, fun hr => hcond (hend.2 hr), hm⟩
      · rw [hrc, s64_of_lt (by omega)]
      · obtain ⟨rfl, -⟩ | ⟨rfl, hle'⟩ := hxval
        · omega
        · rwa [u64_of_lt (by omega)] at hle'
      · obtain ⟨-, hlt'⟩ | ⟨rfl, -⟩ := hxval
        · omega
        · omega
    · have hm' : mallocOk (readRequest i.i_size count pos) = false := by simpa using hm
      change (if mallocOk (readRequest i.i_size count pos) = false then _ else _ :
        Prog FS (Int × Buf)) s = _ at h
      rw [if_pos hm'] at h
      cases h
      exact .inl ⟨rfl, fun hr => hm hr.2⟩

end Read

namespace Kernel

variable {P : Type} [DecidableEq P] {s s' : Kernel P} {p : P} {path : List Byte} {fd count : Nat}
  {f : File} {buf : Buf}

/-- A call that returned `r` moved the file as it should. -/
def Advances (pos : Nat) (r : Int) (pos' : Nat) : Prop :=
  (r = -1 → pos' = pos) ∧ (0 ≤ r → (pos' : Int) = pos + r)

/-- Every position is inside its file. -/
def Inside (s : Kernel P) : Prop :=
  ∀ idx inode i, (s.file_table idx).fd_inode = some inode → s.fs.inodes inode = some i →
    (s.file_table idx).fd_pos ≤ i.i_size

/-- There is room for what a write would put into the file. -/
def HasRoom (fs : FS) (inode count pos : Nat) : Prop :=
  pos + count ≤ MAX_FILE_SIZE ∧
    ∀ i, fs.inodes inode = some i → blocksNeeded fs i pos count ≤ fs.freeBlocks

namespace Call

/-- A read or write moves the file it is about as it should. -/
def Moves (s : Kernel P) : Call P → Prop
  | read p mallocOk fd buf count => ∀ idx f inode r s', openFile p fd s = .ok ((idx, f, inode), s) →
      sysRead p mallocOk fd buf count s = .ok (r, s') →
      Advances f.fd_pos r.1 (s'.file_table idx).fd_pos
  | write p fd buf count => ∀ idx f inode r s', openFile p fd s = .ok ((idx, f, inode), s) →
      sysWrite p fd buf count s = .ok (r, s') → Advances f.fd_pos r (s'.file_table idx).fd_pos
  | _ => True

/-- Counts are `size_t` values, the buffer of a write fits the address space, and nobody writes to the
    root directory. -/
def Fits (s : Kernel P) : Call P → Prop
  | read _ _ _ _ count => count < 2 ^ 64
  | write p fd _ count => count < 2 ^ 63 ∧ ∀ idx f inode,
      openFile p fd s = .ok ((idx, f, inode), s) → inode ≠ s.fs.root_dir_inode
  | _ => True

/-- A read has something to read and a write that is allowed has room. -/
def Steady (s : Kernel P) : Call P → Prop
  | read p mallocOk fd _ count => ∀ idx f inode i, openFile p fd s = .ok ((idx, f, inode), s) →
      s.fs.inodes inode = some i → Readable mallocOk i.i_size count f.fd_pos
  | write p fd _ count => ∀ idx f inode, openFile p fd s = .ok ((idx, f, inode), s) →
      Writable f → HasRoom s.fs inode count f.fd_pos
  | _ => True

/-- A call that meets the condition, and what it leads to. -/
def SteadyStep (s : Kernel P) (c : Call P) (s' : Kernel P) : Prop :=
  c.Fits s ∧ c.Steady s ∧ c.run s = .ok ((), s')

end Call

/-! ## Sums of positions -/

theorem advances_nat {pos n : Nat} (hfit : pos + n < 2 ^ 64) :
    u64 (pos + u64OfInt n) = pos + n ∧ Advances pos n (pos + n) := by
  rw [u64OfInt_natCast (by omega), u64_of_lt hfit]
  exact ⟨rfl, fun h => by omega, fun _ => by omega⟩

/-- The error value moves every position. -/
theorem not_advances_error (pos : Nat) : ¬ Advances pos (-1) (u64 (pos + u64OfInt (-1))) := by
  intro h
  have heq := h.1 rfl
  have hneg : u64OfInt (-1) = 2 ^ 64 - 1 := by decide +kernel
  rw [hneg] at heq
  unfold u64 at heq
  omega

/-! ## What holds of every slot -/

/-- The inode of a slot is at an address that was handed out, and the position is inside the file. -/
structure Placed (fs : FS) (f : File) : Prop where
  fresh : ∀ inode, f.fd_inode = some inode → inode < fs.next
  bounded : ∀ inode, f.fd_inode = some inode → f.fd_pos ≤ 71680
  inside : ∀ inode i, f.fd_inode = some inode → fs.inodes inode = some i → f.fd_pos ≤ i.i_size

theorem Placed.grows {fs fs' : FS} (h : Placed fs f) (hg : Grows fs fs') : Placed fs' f where
  fresh := fun inode hino => Nat.lt_of_lt_of_le (h.fresh inode hino) hg.next
  bounded := h.bounded
  inside := fun inode j hino hj => by
    obtain hnew | ⟨i, hi, hle⟩ := hg.objects inode j hj
    · exact absurd (h.fresh inode hino) (Nat.not_lt.2 hnew)
    · exact Nat.le_trans (h.inside inode i hino hi) hle

theorem Placed.empty {fs : FS} (hnone : f.fd_inode = none) : Placed fs f where
  fresh := fun inode hino => by simp [hnone] at hino
  bounded := fun inode hino => by simp [hnone] at hino
  inside := fun inode i hino => by simp [hnone] at hino

theorem Placed.start {fs : FS} {inode : Nat} (hlt : inode < fs.next) (flag : Nat) :
    Placed fs ⟨0, flag, some inode⟩ where
  fresh := fun inode' hino => by
    cases hino
    exact hlt
  bounded := fun _ _ => Nat.zero_le _
  inside := fun _ i _ _ => Nat.zero_le i.i_size

theorem Placed.move {fs : FS} {inode pos : Nat} (h : Placed fs f) (hf : f.fd_inode = some inode)
    (hle : pos ≤ 71680) (hin : ∀ i, fs.inodes inode = some i → pos ≤ i.i_size) :
    Placed fs { f with fd_pos := pos } where
  fresh := h.fresh
  bounded := fun _ _ => hle
  inside := fun inode' i hino hi => by
    rw [show f.fd_inode = some inode' from hino] at hf
    cases hf
    exact hin i hi

/-- Every slot is as it should be. -/
def Positioned (s : Kernel P) : Prop := ∀ idx, Placed s.fs (s.file_table idx)

omit [DecidableEq P] in
theorem Positioned.inside (h : Positioned s) : Inside s := fun idx inode i hino hi => (h idx).inside inode i hino hi

omit [DecidableEq P] in
/-- The files grew, and one slot was stored. -/
theorem Positioned.store {idx : Nat} (h : Positioned s) (hg : Grows s.fs s'.fs)
    (htable : s'.file_table = Function.update s.file_table idx f) (hf : Placed s'.fs f) : Positioned s' := by
  intro k
  rw [htable]
  by_cases hk : k = idx
  · rw [hk, Function.update_self]
    exact hf
  · rw [Function.update_of_ne hk]
    exact (h k).grows hg

omit [DecidableEq P] in
theorem Positioned.grows (h : Positioned s) (hg : Grows s.fs s'.fs) (htable : s'.file_table = s.file_table) :
    Positioned s' := fun k => by
  rw [htable]
  exact (h k).grows hg

/-! ## Every call -/

section Calls

variable {mallocOk : Nat → Bool} {m idx inode : Nat} {r : Int}

omit [DecidableEq P] in
/-- `sys_read`: the error value, or bytes that are there. -/
theorem Positioned.read (h : Positioned s) (hm : RootDir s.fs m) (hcount : count < 2 ^ 64)
    {r : Int × Buf} (hrun : sysRead p mallocOk fd buf count s = .ok (r, s')) :
    ∃ idx f inode i, openFile p fd s = .ok ((idx, f, inode), s) ∧ s.fs.inodes inode = some i ∧
      s' = { s with
        file_table := Function.update s.file_table idx
          { f with fd_pos := u64 (f.fd_pos + u64OfInt r.1) } } ∧
      ((r.1 = -1 ∧ ¬ Readable mallocOk i.i_size count f.fd_pos) ∨
        ∃ n : Nat, r.1 = n ∧ f.fd_pos + n ≤ i.i_size ∧ i.i_size ≤ 71680 ∧
          Readable mallocOk i.i_size count f.fd_pos) := by
  unfold Kernel.sysRead at hrun
  obtain ⟨⟨idx, f, inode⟩, s1, hopen, h1⟩ := Prog.bind_eq_ok.1 hrun
  obtain ⟨-, -, -, hf, hino, rfl⟩ := openFile_eq_ok.1 hopen
  obtain ⟨ret, s2, hread, h2⟩ := Prog.bind_eq_ok.1 h1
  obtain ⟨t, hread', rfl⟩ := onFs_eq_ok.1 hread
  cases h2
  have hsame := inodeRead_state hread'
  cases hp : s1.fs.inodes inode with
  | none =>
      unfold inodeRead at hread'
      obtain ⟨i, s3, hat, -⟩ := Prog.bind_eq_ok.1 hread'
      rw [(inodeAt_eq_ok.1 hat).1] at hp
      cases hp
  | some i =>
      have hsize := hm.dir.inv.size_le hp
      have hpos : f.fd_pos ≤ i.i_size := by
        rw [hf] at hino ⊢
        exact (h idx).inside inode i hino hp
      refine ⟨idx, f, inode, i, hopen, hp, by rw [hsame], ?_⟩
      obtain ⟨hr, hnot⟩ | ⟨n, hr, hn, -, hread⟩ := inodeRead_returned hp hsize hpos hcount hread'
      · exact .inl ⟨hr, hnot⟩
      · exact .inr ⟨n, hr, hn, hsize, hread⟩

omit [DecidableEq P] in
/-- `sys_write`: not allowed, the error value, or all of the buffer. -/
theorem Positioned.write (h : Positioned s) (hm : RootDir s.fs m) (hcount : count < 2 ^ 63)
    (hrun : sysWrite p fd buf count s = .ok (r, s')) :
    ∃ idx f inode, openFile p fd s = .ok ((idx, f, inode), s) ∧
      ((¬ Writable f ∧ r = -1 ∧ s' = s) ∨ (Writable f ∧ ∃ t, Grows s.fs t ∧
        s' = { s with
          fs := t
          file_table := Function.update s.file_table idx
            { f with fd_pos := u64 (f.fd_pos + u64OfInt r) } } ∧
        ((r = -1 ∧ ¬ HasRoom s.fs inode count f.fd_pos) ∨
          (r = count ∧ HasRoom s.fs inode count f.fd_pos ∧
            ∀ i, t.inodes inode = some i → f.fd_pos + count ≤ i.i_size)))) := by
  unfold Kernel.sysWrite at hrun
  obtain ⟨⟨idx, f, inode⟩, s1, hopen, h1⟩ := Prog.bind_eq_ok.1 hrun
  obtain ⟨-, -, -, hf, hino, rfl⟩ := openFile_eq_ok.1 hopen
  refine ⟨idx, f, inode, hopen, ?_⟩
  have hpos : f.fd_pos ≤ 71680 := by
    rw [hf] at hino ⊢
    exact (h idx).bounded inode hino
  have hsum : u64 (f.fd_pos + count) = f.fd_pos + count := u64_of_lt (by omega)
  change (if Writable f then _ else _ : Prog (Kernel P) Int) s1 = _ at h1
  split at h1
  · next hw =>
    obtain ⟨ret, s2, hwrite, h2⟩ := Prog.bind_eq_ok.1 h1
    obtain ⟨t, hwrite', rfl⟩ := onFs_eq_ok.1 hwrite
    cases h2
    refine .inr ⟨hw, t, inodeWrite_grows _ _ _ _ _ _ _ hwrite', rfl, ?_⟩
    cases hp : s1.fs.inodes inode with
    | none =>
        obtain ⟨hr, -, hlong⟩ := inodeWrite_none hp hwrite'
        rw [hsum] at hlong
        exact .inl ⟨hr, fun hroom => absurd hroom.1 (Nat.not_le.2 hlong)⟩
    | some i =>
        by_cases hfit : f.fd_pos + count ≤ 71680
        · obtain ⟨hroom, u, i', hdone, -⟩ | ⟨hfull, u, stop, hfail, -⟩ :=
            inodeWrite_run buf hm.dir.inv hp hfit
          · rw [hdone] at hwrite'
            cases hwrite'
            obtain ⟨-, i2, hframe, ⟨hr, -⟩ | ⟨-, -, hd⟩⟩ := inodeWrite_cases hm.dir.inv hp hdone
            · omega
            · refine .inr ⟨rfl, ⟨hfit, fun j hj => ?_⟩, fun j hj => ?_⟩
              · rw [hp] at hj
                cases hj
                exact hroom
              · rw [hframe.changes.object'] at hj
                cases hj
                rw [hd.size, hsum]
                exact Nat.le_max_right _ _
          · rw [hfail] at hwrite'
            cases hwrite'
            exact .inl ⟨rfl, fun hroom => absurd (hroom.2 i hp) (Nat.not_le.2 hfull)⟩
        · have hlong : u64 (f.fd_pos + count) > MAX_FILE_SIZE := by
            rw [hsum]
            exact Nat.lt_of_not_le hfit
          rw [inodeWrite_too_long hlong] at hwrite'
          cases hwrite'
          exact .inl ⟨rfl, fun hroom => hfit hroom.1⟩
  · next hw =>
    cases h1
    exact .inl ⟨hw, rfl, rfl⟩

/-! The other calls open files at 0, empty slots, and leave the rest alone. -/

/-- The slots stay as they should be. -/
def Keeps (s t : Kernel P) : Prop := Positioned s → Positioned t

instance : IsPreorder (Kernel P) Keeps where
  refl _ h := h
  trans _ _ _ h h' hs := h' (h hs)

omit [DecidableEq P] in
theorem onFs_keeps {α : Type} {c : Prog FS α} (hc : c.Extends Grows) :
    (onFs c : Prog (Kernel P) α).Extends Keeps := by
  intro s a t hrun h
  obtain ⟨fs, hrun', rfl⟩ := onFs_eq_ok.1 hrun
  exact h.grows (hc _ _ _ hrun') rfl

omit [DecidableEq P] in
theorem setFile_keeps (idx : Nat) (hnone : f.fd_inode = none) :
    (setFile idx f : Prog (Kernel P) Unit).Extends Keeps :=
  .modify fun _ h => h.store (refl_of Grows _) rfl (.empty hnone)

theorem setFd_keeps (p : P) (fd : Nat) (g : Option Nat) : (setFd p fd g).Extends Keeps := .modify fun _ h => h

omit [DecidableEq P] in
theorem openFile_keeps (p : P) (fd : Nat) : (openFile p fd).Extends Keeps := by
  rintro s ⟨idx, f, inode⟩ t hrun
  obtain ⟨-, -, -, -, -, rfl⟩ := openFile_eq_ok.1 hrun
  exact refl_of Keeps _

theorem sysClose_keeps (p : P) (fd : Nat) : (sysClose p fd).Extends Keeps :=
  .bind .assert fun _ => .bind (openFile_keeps p fd) fun _ => .bind (onFs_keeps (inodeClose_grows _)) fun _ =>
    .bind (setFile_keeps _ rfl) fun _ => setFd_keeps _ _ _

omit [DecidableEq P] in
theorem sysStat_keeps (p : P) (path : List Byte) : (sysStat p path).Extends Keeps := by
  refine .bind .get fun s => .bind (onFs_keeps (searchFile_grows _ _ _)) fun found => ?_
  cases found with
  | none => exact .pure _
  | some inode =>
      exact .bind (onFs_keeps (inodeAt_grows _)) fun _ => .bind .assert fun _ =>
        .bind (onFs_keeps (inodeClose_grows _)) fun _ => .pure _

omit [DecidableEq P] in
theorem sysOpendir_keeps (p : P) (path : List Byte) : (sysOpendir p path).Extends Keeps := by
  refine .bind .get fun s => .bind (onFs_keeps (searchFile_grows _ _ _)) fun found => ?_
  cases found with
  | none => exact .pure _
  | some inode => exact .bind (onFs_keeps (inodeAt_grows _)) fun _ => .ite (.pure _) (.pure _)

omit [DecidableEq P] in
theorem sysUnlink_keeps (mapped : Bool) (p : P) (path : List Byte) : (sysUnlink mapped p path).Extends Keeps := by
  have hlook : (unlinkLookUp p path).Extends Keeps := by
    refine .bind .get fun s => .bind (onFs_keeps (searchFile_grows _ _ _)) fun found => ?_
    cases found with
    | none => exact .pure _
    | some inode =>
        refine .bind (.modify fun s h idx => ?_) fun _ => .bind (onFs_keeps (inodeClose_grows _)) fun _ =>
          onFs_keeps (deleteLookUp_grows _ _)
        dsimp only
        split
        · exact .empty rfl
        · exact h idx
  refine .bind hlook fun target => ?_
  cases target with
  | none => exact .pure _
  | some r => exact .bind (onFs_keeps (deleteFound_grows _ _ _ _)) fun _ => .pure _

omit [DecidableEq P] in
theorem updateInodeOpenCnts_keeps (p : P) (fds : List Nat) : (updateInodeOpenCnts p fds).Extends Keeps := by
  induction fds with
  | nil => exact .pure _
  | cons fd fds ih =>
      unfold Kernel.updateInodeOpenCnts
      refine .bind .get fun s => ?_
      cases s.fd_table p fd with
      | none => exact ih
      | some global =>
          refine .bind .assert fun _ => .bind (.ofOption _) fun inode => ?_
          intro s u t hrun h
          obtain ⟨i, s1, hat, h1⟩ := Prog.bind_eq_ok.1 hrun
          obtain ⟨fs, hat', rfl⟩ := onFs_eq_ok.1 hat
          obtain ⟨hp, rfl⟩ := inodeAt_eq_ok.1 hat'
          obtain ⟨⟨⟩, s2, hset, h2⟩ := Prog.bind_eq_ok.1 h1
          obtain ⟨fs', hset', rfl⟩ := onFs_eq_ok.1 hset
          exact ih _ _ _ h2 (h.grows (setInode_grows hset' hp (Nat.le_refl _)) rfl)

theorem sysFork_keeps (p child : P) : (sysFork p child).Extends Keeps :=
  .bind (.modify fun _ h => h) fun _ => updateInodeOpenCnts_keeps _ _

theorem closeAll_keeps (p : P) (fds : List Nat) : (closeAll p fds).Extends Keeps := by
  induction fds with
  | nil => exact .pure _
  | cons fd fds ih =>
      unfold Kernel.closeAll
      exact .bind .get fun _ => .ite (.bind (sysClose_keeps p fd) fun _ => ih) ih

theorem sysExit_keeps (p : P) : (sysExit p).Extends Keeps :=
  .bind (closeAll_keeps p _) fun _ => .modify fun _ h => h

omit [DecidableEq P] in
theorem Positioned.lseek (h : Positioned s) (hm : RootDir s.fs m) {offset : Int} {whence : Whence}
    (hrun : sysLseek p fd offset whence s = .ok (r, s')) : Positioned s' := by
  unfold Kernel.sysLseek at hrun
  split at hrun
  · cases hrun
    exact h
  · obtain ⟨⟨idx, f, inode⟩, s1, hopen, h1⟩ := Prog.bind_eq_ok.1 hrun
    obtain ⟨-, -, -, hf, hino, rfl⟩ := openFile_eq_ok.1 hopen
    obtain ⟨i, s2, hat, h2⟩ := Prog.bind_eq_ok.1 h1
    obtain ⟨t, hat', rfl⟩ := onFs_eq_ok.1 hat
    obtain ⟨hp, rfl⟩ := inodeAt_eq_ok.1 hat'
    have hsize := hm.dir.inv.size_le hp
    -- whatever the new position is, it is checked
    have hstore : ∀ new_pos : Int,
        (if new_pos < 0 ∨ new_pos > s64 i.i_size then pure (-1) else do
          setFile idx { f with fd_pos := u64OfInt new_pos }
          pure new_pos : Prog (Kernel P) Int) { s1 with fs := s1.fs } = .ok (r, s') → Positioned s' := by
      intro new_pos hres
      split at hres
      · cases hres
        exact h
      · next hin =>
        rw [s64_of_lt (by omega)] at hin
        obtain ⟨n, rfl⟩ := Int.eq_ofNat_of_zero_le (a := new_pos) (by omega)
        cases hres
        rw [u64OfInt_natCast (by omega)]
        refine h.store (refl_of Grows _) rfl (Placed.move (hf ▸ h idx) hino (by omega) fun j hj => ?_)
        rw [hp] at hj
        cases hj
        omega
    exact hstore _ h2

/-- A file was put into a slot, at its start. -/
theorem Positioned.install (h : Positioned s) {t : FS} {flag : Nat} {r : Option Nat} (hg : Grows s.fs t)
    (hlt : inode < t.next)
    (hrun : (do
      setFile idx ⟨0, flag, some inode⟩
      pcbFdInstall p idx : Prog (Kernel P) (Option Nat)) { s with fs := t } = .ok (r, s')) :
    Positioned s' := by
  obtain ⟨⟨⟩, s1, hset, h1⟩ := Prog.bind_eq_ok.1 hrun
  rw [Prog.modify_eq_ok.1 hset] at h1
  obtain ⟨r', fdt, hinstall, -⟩ := pcbFdInstall_run p idx { s with
    fs := t
    file_table := Function.update s.file_table idx ⟨0, flag, some inode⟩ }
  rw [hinstall] at h1
  cases h1
  exact h.store hg rfl (.start hlt flag)

theorem Positioned.open (h : Positioned s) (hr : Rooted s) {flag : Nat} {r : Option Nat}
    (hrun : sysOpen p path flag s = .ok (r, s')) : Positioned s' := by
  obtain ⟨m, hm⟩ := hr.fs
  unfold Kernel.sysOpen at hrun
  split at hrun
  · unfold Kernel.fileCreate at hrun
    rw [Prog.bind_of_ok (a := s) (t := s) rfl, hr.cwd] at hrun
    cases hslot : getFreeSlotInGlobal s with
    | none =>
        rw [hslot] at hrun
        cases hrun
        exact h
    | some idx =>
        rw [hslot] at hrun
        obtain ⟨created, s1, hcreate, h1⟩ := Prog.bind_eq_ok.1 hrun
        obtain ⟨t, hcreate', rfl⟩ := onFs_eq_ok.1 hcreate
        have hg := createFileOrDirectory_grows _ _ _ _ _ _ hcreate'
        cases created with
        | none =>
            cases h1
            exact h.grows hg rfl
        | some inode =>
            refine h.install hg ?_ h1
            obtain ⟨-, hstop⟩ | ⟨u, hnone, -⟩ | ⟨k, u, hsome, hc⟩ := hm.create path
            · rw [hstop] at hcreate'
              cases hcreate'
            · rw [hnone] at hcreate'
              cases hcreate'
            · rw [hsome] at hcreate'
              cases hcreate'
              obtain ⟨l, -, -, hu, -⟩ := hc.linked
              exact hu.dir.inv.table.fresh _ _ hc.object
  · unfold Kernel.fileOpen at hrun
    rw [Prog.bind_of_ok (a := s) (t := s) rfl, hr.cwd] at hrun
    obtain ⟨found, s1, hsearch, h1⟩ := Prog.bind_eq_ok.1 hrun
    obtain ⟨t, hsearch', rfl⟩ := onFs_eq_ok.1 hsearch
    have hg := searchFile_grows _ _ _ _ _ _ hsearch'
    cases found with
    | none =>
        cases h1
        exact h.grows hg rfl
    | some inode =>
        dsimp only at h1
        cases hslot : getFreeSlotInGlobal s with
        | none =>
            rw [hslot] at h1
            cases h1
            exact h.grows hg rfl
        | some idx =>
            rw [hslot] at h1
            refine h.install hg ?_ h1
            obtain ⟨-, -, hstop⟩ | ⟨r, u, hfound, hrun'⟩ := hm.searchFile path
            · rw [hstop] at hsearch'
              cases hsearch'
            · rw [hrun'] at hsearch'
              cases hsearch'
              obtain ⟨j, hj⟩ := hfound.object hm
              exact (hfound.rootDir hm).dir.inv.table.fresh _ _ hj

end Calls

/-! ## Runs -/

omit [DecidableEq P] in
theorem Booted.positioned (h : Booted s) : Positioned s := fun idx => .empty (h.file_table idx)

omit [DecidableEq P] in
/-- A position inside the file is what a write needs. -/
theorem Positioned.regular {c : Call P} (h : Positioned s) (hfits : c.Fits s) : c.Regular s := by
  cases c with
  | write p fd buf count =>
      refine ⟨hfits.1, fun idx f inode hopen => ⟨hfits.2 idx f inode hopen, fun i hi => ?_⟩⟩
      obtain ⟨-, -, -, hf, hino, -⟩ := openFile_eq_ok.1 hopen
      rw [hf] at hino ⊢
      exact (h idx).inside inode i hino hi
  | _ => trivial

/-- One call that meets the condition keeps every position inside its file. -/
theorem Positioned.step {c : Call P} (h : Positioned s) (hr : Rooted s) (hstep : c.SteadyStep s s') :
    Positioned s' := by
  obtain ⟨hfits, hsteady, hrun⟩ := hstep
  obtain ⟨m, hm⟩ := hr.fs
  cases c with
  | «open» p path flag =>
      obtain ⟨r, hcall⟩ := drop_eq_ok hrun
      exact h.open hr hcall
  | close p fd => exact sysClose_keeps p fd _ _ _ hrun h
  | read p mallocOk fd buf count =>
      obtain ⟨r, hcall⟩ := drop_eq_ok hrun
      obtain ⟨idx, f, inode, i, hopen, hp, rfl, ⟨-, hnot⟩ | ⟨n, hn, hle, hsize, -⟩⟩ :=
        h.read hm hfits hcall
      · exact absurd (hsteady idx f inode i hopen hp) hnot
      · obtain ⟨-, -, -, hf, hino, -⟩ := openFile_eq_ok.1 hopen
        rw [hn, (advances_nat (by omega)).1]
        refine h.store (refl_of Grows _) rfl (Placed.move (hf ▸ h idx) hino (by omega) fun j hj => ?_)
        rw [hp] at hj
        cases hj
        exact hle
  | write p fd buf count =>
      obtain ⟨r, hcall⟩ := drop_eq_ok hrun
      obtain ⟨idx, f, inode, hopen, ⟨-, -, rfl⟩ | ⟨hw, t, hg, rfl, ⟨-, hnot⟩ | ⟨hr', hroom, hle⟩⟩⟩ :=
        h.write hm hfits.1 hcall
      · exact h
      · exact absurd (hsteady idx f inode hopen hw) hnot
      · obtain ⟨-, -, -, hf, hino, -⟩ := openFile_eq_ok.1 hopen
        have hfit : f.fd_pos + count ≤ 71680 := hroom.1
        rw [hr', (advances_nat (by omega)).1]
        exact h.store hg rfl (Placed.move ((hf ▸ h idx : Placed s.fs f).grows hg) hino hfit hle)
  | lseek p fd offset whence =>
      obtain ⟨r, hcall⟩ := drop_eq_ok hrun
      exact h.lseek hm hcall
  | stat p path =>
      obtain ⟨r, hcall⟩ := drop_eq_ok hrun
      exact sysStat_keeps p path _ _ _ hcall h
  | opendir p path =>
      obtain ⟨r, hcall⟩ := drop_eq_ok hrun
      exact sysOpendir_keeps p path _ _ _ hcall h
  | unlink mapped p path =>
      obtain ⟨r, hcall⟩ := drop_eq_ok hrun
      exact sysUnlink_keeps mapped p path _ _ _ hcall h
  | fork p child => exact sysFork_keeps p child _ _ _ hrun h
  | exit p => exact sysExit_keeps p _ _ _ hrun h

/-- A call that returns moves its file as it should exactly when the condition is met. -/
theorem Positioned.moves_iff {c : Call P} (h : Positioned s) (hr : Rooted s) (hfits : c.Fits s)
    (hrun : c.run s = .ok ((), s')) : c.Moves s ↔ c.Steady s := by
  obtain ⟨m, hm⟩ := hr.fs
  cases c with
  | read p mallocOk fd buf count =>
      obtain ⟨r, hcall⟩ := drop_eq_ok hrun
      obtain ⟨idx, f, inode, i, hopen, hp, rfl, hcases⟩ := h.read hm hfits hcall
      have hmoves : (Call.read p mallocOk fd buf count).Moves s ↔
          Advances f.fd_pos r.1 (u64 (f.fd_pos + u64OfInt r.1)) := by
        constructor
        · intro hmove
          simpa only [Function.update_self] using hmove idx f inode r _ hopen hcall
        · intro hadv idx' f' inode' r' t hopen' hcall'
          rw [hopen] at hopen'
          cases hopen'
          rw [hcall] at hcall'
          cases hcall'
          simpa only [Function.update_self] using hadv
      have hsteady : (Call.read p mallocOk fd buf count).Steady s ↔
          Readable mallocOk i.i_size count f.fd_pos := by
        refine ⟨fun hs => hs idx f inode i hopen hp, fun hread idx' f' inode' j hopen' hj => ?_⟩
        rw [hopen] at hopen'
        cases hopen'
        rw [hp] at hj
        cases hj
        exact hread
      rw [hmoves, hsteady]
      obtain ⟨hr, hnot⟩ | ⟨n, hr, hle, hsize, hread⟩ := hcases
      · rw [hr]
        exact ⟨fun hadv => absurd hadv (not_advances_error _), fun hread => absurd hread hnot⟩
      · obtain ⟨hsum, hadv⟩ := @advances_nat f.fd_pos n (by omega)
        rw [hr, hsum]
        exact ⟨fun _ => hread, fun _ => hadv⟩
  | write p fd buf count =>
      obtain ⟨r, hcall⟩ := drop_eq_ok hrun
      obtain ⟨idx, f, inode, hopen, hcases⟩ := h.write hm hfits.1 hcall
      have hmoves : (Call.write p fd buf count).Moves s ↔
          Advances f.fd_pos r (s'.file_table idx).fd_pos := by
        constructor
        · exact fun hmove => hmove idx f inode r _ hopen hcall
        · intro hadv idx' f' inode' r' t hopen' hcall'
          rw [hopen] at hopen'
          cases hopen'
          rw [hcall] at hcall'
          cases hcall'
          exact hadv
      have hsteady : (Call.write p fd buf count).Steady s ↔
          (Writable f → HasRoom s.fs inode count f.fd_pos) := by
        refine ⟨fun hs => hs idx f inode hopen, fun hroom idx' f' inode' hopen' => ?_⟩
        rw [hopen] at hopen'
        cases hopen'
        exact hroom
      rw [hmoves, hsteady]
      obtain ⟨hw, rfl, rfl⟩ | ⟨hw, t, -, rfl, hcases⟩ := hcases
      · obtain ⟨-, -, -, hf, -, -⟩ := openFile_eq_ok.1 hopen
        rw [← hf]
        exact ⟨fun _ hw' => absurd hw' hw, fun _ => ⟨fun _ => rfl, fun hneg => absurd hneg (by decide)⟩⟩
      · simp only [Function.update_self]
        obtain ⟨rfl, hnot⟩ | ⟨rfl, hroom, -⟩ := hcases
        · exact ⟨fun hadv => absurd hadv (not_advances_error _), fun hroom => absurd (hroom hw) hnot⟩
        · have hfit : f.fd_pos + count ≤ 71680 := hroom.1
          obtain ⟨hsum, hadv⟩ := @advances_nat f.fd_pos count (by omega)
          rw [hsum]
          exact ⟨fun _ _ => hroom, fun _ => hadv⟩
  | _ => exact ⟨fun _ => trivial, fun _ => trivial⟩

/-- A file that was just created, with a descriptor for it. -/
theorem exists_empty_file : ∃ (s0 s : Kernel Unit) (fd idx inode k : Nat), Booted s0 ∧
    Run Call.SteadyStep s0 [.open () [97] 6] s ∧ Reached s ∧
    openFile () fd s = .ok ((idx, ⟨0, 6, some inode⟩, inode), s) ∧
    s.fs.inodes inode = some (newInode k FT_REGULAR) := by
  obtain ⟨s, hs⟩ := exists_booted
  have hfit : FitsPath [97] := fitsPath_of_length (by decide)
  obtain ⟨fd, t, hrun⟩ : ∃ fd t, fileCreate () [97] 6 s = .ok (some fd, t) :=
    hs.fileCreate () hfit (by decide) (Option.some_ne_none (0, [97])) (by decide) (by decide)
  have hstep : Call.SteadyStep s (.open () [97] 6) t := by
    refine ⟨trivial, trivial, ?_⟩
    show (sysOpen () [97] 6 >>= _) s = _
    rw [Prog.bind_of_ok (show sysOpen () [97] 6 s = _ from hrun)]
    rfl
  obtain ⟨-, hcreate⟩ | ⟨idx, m, hslot, hm, ⟨hunfit, -⟩ | ⟨u, hcreate, -⟩ |
    ⟨k, u, fd', fdt, hc, hfd, hcreate⟩⟩ := hs.rooted.fileCreate () [97] 6
  · rw [hcreate] at hrun
    cases hrun
  · exact absurd hfit hunfit
  · rw [hcreate] at hrun
    cases hrun
  · rw [hcreate] at hrun
    cases hrun
    have hidx := List.mem_range'_1.1 (List.mem_of_find?_eq_some hslot)
    have hself : Function.update s.file_table idx (⟨0, 6, some s.fs.next⟩ : File) idx = _ :=
      Function.update_self idx _ _
    exact ⟨s, _, fd, idx, s.fs.next, k, hs, .single hstep, ⟨s, [.open () [97] 6], hs, .single ⟨trivial, hstep.2.2⟩⟩,
      openFile_eq_ok.2 ⟨hfd.bound fd rfl, hfd.slot fd rfl, hidx.2, hself.symm, rfl, rfl⟩, hc.object⟩

end Kernel

end RecoverOS
