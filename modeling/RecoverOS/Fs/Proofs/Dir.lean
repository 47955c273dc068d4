import RecoverOS.Fs.Dir
import RecoverOS.Fs.Sequential

set_option autoImplicit false

/-! # Directories: what the calls of `fs/dir.c` do

The loops over the entries first, then what is left of a directory after an entry was written and after
an inode was opened and closed, and last the invariant of a directory. -/

namespace RecoverOS

/-! ## Names -/

theorem strcmpEq_congr {name : List Byte} {b c : Buf} (h : Buf.Agree b c 0 (name.length + 1)) :
    strcmpEq name b = strcmpEq name c := by
  induction name generalizing b c with
  | nil =>
      unfold strcmpEq
      rw [h 0 (Nat.le_refl 0) (by decide)]
  | cons x name ih =>
      have hlen : (x :: name).length = name.length + 1 := rfl
      unfold strcmpEq
      rw [h 0 (Nat.le_refl 0) (by omega)]
      refine congrArg _ (ih fun a _ ha => ?_)
      exact h (1 + a) (by omega) (by omega)

/-- A buffer holds one string. -/
theorem strcmpEq_inj {name name' : List Byte} {b : Buf} (h0 : 0 ∉ name) (h0' : 0 ∉ name')
    (h : strcmpEq name b = true) (h' : strcmpEq name' b = true) : name = name' := by
  induction name generalizing name' b with
  | nil =>
      cases name' with
      | nil => rfl
      | cons x' name' =>
          simp only [strcmpEq, Bool.and_eq_true, beq_iff_eq] at h h'
          exact absurd (h'.1.symm.trans h ▸ List.mem_cons_self ..) h0'
  | cons x name ih =>
      cases name' with
      | nil =>
          simp only [strcmpEq, Bool.and_eq_true, beq_iff_eq] at h h'
          exact absurd (h.1.symm.trans h' ▸ List.mem_cons_self ..) h0
      | cons x' name' =>
          simp only [strcmpEq, Bool.and_eq_true, beq_iff_eq] at h h'
          rw [List.mem_cons, not_or] at h0 h0'
          rw [h.1.symm.trans h'.1, ih h0.2 h0'.2 h.2 h'.2]

/-- The empty string matches no other name. -/
theorem strcmpEq_of_nil {name : List Byte} {b : Buf} (hne : name ≠ []) (h0 : 0 ∉ name) (hb : b 0 = 0) :
    strcmpEq name b = false := by
  cases h : strcmpEq name b with
  | false => rfl
  | true =>
      have hnil : strcmpEq [] b = true := by
        unfold strcmpEq
        rw [hb]
        rfl
      exact absurd (strcmpEq_inj h0 (by simp) h hnil) hne

theorem strcmpEq_getD (name : List Byte) {b : Buf} (h : ∀ k ≤ name.length, b k = name.getD k 0) :
    strcmpEq name b = true := by
  induction name generalizing b with
  | nil =>
      unfold strcmpEq
      rw [h 0 (Nat.le_refl 0)]
      rfl
  | cons x name ih =>
      unfold strcmpEq
      rw [h 0 (Nat.zero_le _), Bool.and_eq_true]
      refine ⟨by simp, ih fun k hk => ?_⟩
      have hk' := h (1 + k) (by rw [List.length_cons]; omega)
      rw [Nat.add_comm 1 k] at hk'
      simpa [Nat.add_comm] using hk'

/-! ## The entries of a directory -/

/-- The first of the `m` entries from `off` on for which `P` holds. -/
def findEntry (P : Buf → Bool) (bytes : Buf) : Nat → Nat → Option Nat
  | 0, _ => none
  | m + 1, off =>
      if P (bytes.from off) then some off else findEntry P bytes m (off + sizeofDirEntry)

section Find

variable {P : Buf → Bool} {bytes : Buf} {m off o : Nat}

theorem findEntry_some (h : findEntry P bytes m off = some o) :
    P (bytes.from o) = true ∧ ∃ k < m, o = off + 32 * k := by
  induction m generalizing off with
  | zero => cases h
  | succ m ih =>
      unfold findEntry at h
      split at h
      · next hP =>
        cases h
        exact ⟨hP, 0, Nat.succ_pos m, rfl⟩
      · obtain ⟨hP, k, hk, rfl⟩ := ih h
        exact ⟨hP, k + 1, Nat.succ_lt_succ hk, by simp only [sizeofDirEntry]; omega⟩

theorem findEntry_none (h : findEntry P bytes m off = none) {k : Nat} (hk : k < m) :
    P (bytes.from (off + 32 * k)) = false := by
  induction m generalizing off k with
  | zero => exact absurd hk (Nat.not_lt_zero k)
  | succ m ih =>
      unfold findEntry at h
      split at h
      · cases h
      · next hP =>
        cases k with
        | zero => exact Bool.eq_false_iff.2 hP
        | succ k =>
            have h' := ih h (Nat.lt_of_succ_lt_succ hk)
            rwa [show off + sizeofDirEntry + 32 * k = off + 32 * (k + 1) by
              simp only [sizeofDirEntry]; omega] at h'

/-- No entry before the one that was found will do. -/
theorem findEntry_first {k l : Nat} (h : findEntry P bytes m off = some (off + 32 * k)) (hl : l < k) :
    P (bytes.from (off + 32 * l)) = false := by
  induction m generalizing off k l with
  | zero => cases h
  | succ m ih =>
      unfold findEntry at h
      split at h
      · have hk := Option.some.inj h
        omega
      · next hP =>
        cases l with
        | zero => exact Bool.eq_false_iff.2 hP
        | succ l =>
            obtain ⟨k, rfl⟩ := Nat.exists_eq_succ_of_ne_zero (Nat.ne_of_gt (Nat.lt_of_le_of_lt
              (Nat.zero_le _) hl))
            have hshift : ∀ n, off + 32 * (n + 1) = off + sizeofDirEntry + 32 * n := fun n => by
              simp only [sizeofDirEntry]
              omega
            rw [hshift] at h ⊢
            exact ih h (Nat.lt_of_succ_lt_succ hl)

theorem findEntry_eq_some {k : Nat} (hk : k < m) (hP : P (bytes.from (off + 32 * k)) = true)
    (hfirst : ∀ l < k, P (bytes.from (off + 32 * l)) = false) :
    findEntry P bytes m off = some (off + 32 * k) := by
  induction m generalizing off k with
  | zero => exact absurd hk (Nat.not_lt_zero k)
  | succ m ih =>
      unfold findEntry
      cases k with
      | zero => exact if_pos hP
      | succ k =>
          have hshift : ∀ n, off + 32 * (n + 1) = off + sizeofDirEntry + 32 * n := fun n => by
            simp only [sizeofDirEntry]
            omega
          have hnot : P (bytes.from off) = false := hfirst 0 (Nat.succ_pos k)
          rw [if_neg (Bool.eq_false_iff.1 hnot), hshift]
          refine ih (Nat.lt_of_succ_lt_succ hk) (hshift k ▸ hP) fun l hl => ?_
          have h := hfirst (l + 1) (Nat.succ_lt_succ hl)
          rwa [hshift] at h

end Find

theorem entryNo_congr {b c : Buf} (h : Buf.Agree b c 0 32) : entryNo b = entryNo c :=
  Buf.getLE_congr fun a _ ha => h a (Nat.zero_le a) (by omega)

theorem entryType_congr {b c : Buf} (h : Buf.Agree b c 0 32) : entryType b = entryType c :=
  Buf.getLE_congr fun a _ ha => h a (Nat.zero_le a) (by omega)

/-- The object at `p` is a directory of `m` entries, which are the first bytes of `bytes`. -/
structure IsDir (s : FS) (p m : Nat) (bytes : Buf) : Prop where
  inv : Inv s
  covered : Covered s
  object : ∃ i, s.inodes p = some i ∧ i.f_type = FT_DIRECTORY ∧ i.i_size = 32 * m ∧
    ∀ a < 32 * m, i.byte s.disk a = bytes a

section Loops

variable {s : FS} {p m : Nat} {bytes : Buf}

theorem IsDir.le (h : IsDir s p m bytes) : m ≤ 2240 := by
  obtain ⟨i, hp, -, hsize, -⟩ := h.object
  have hle := h.inv.size_le hp
  omega

theorem IsDir.inodeRead (h : IsDir s p m bytes) {off : Nat} (hoff : off + 32 ≤ 32 * m) (de : Buf) :
    ∃ out, inodeRead (fun _ => true) p de sizeofDirEntry off s = .ok ((32, out), s) ∧
      Buf.Agree out (bytes.from off) 0 32 := by
  obtain ⟨i, hp, -, hsize, hbytes⟩ := h.object
  have hmin : min 32 (i.i_size - off) = 32 := by omega
  obtain ⟨out, hrun, hin, -⟩ := inodeRead_run (fun _ => true) de hp (h.inv.size_le hp)
    (by omega : off ≤ i.i_size) (.inr (by omega)) (by have := h.le; omega : off + 32 < 2 ^ 64) rfl
  rw [hmin] at hrun hin
  exact ⟨out, hrun, fun a _ ha => (hin a (by omega)).trans (hbytes _ (by omega))⟩

/-- The loop of `dir_look_up` opens the inode of the first entry with the name. -/
theorem IsDir.lookUpLoop (h : IsDir s p m bytes) {name : List Byte} (hname : name.length < 32)
    {l off n : Nat} (hend : off + 32 * l = 32 * m) (hn : l < n) (de : Buf) :
    lookUpLoop p name n off de s =
      match findEntry (strcmpEq name) bytes l off with
      | none => .ok (none, s)
      | some o => (do
          let inode ← inodeOpen (entryNo (bytes.from o))
          pure (some (inode, o)) : Prog FS (Option (Nat × Nat))) s := by
  obtain ⟨i, hp, -, hsize, -⟩ := h.object
  induction l generalizing off n de with
  | zero =>
      obtain ⟨n, rfl⟩ := Nat.exists_eq_succ_of_ne_zero (Nat.ne_of_gt hn)
      unfold RecoverOS.lookUpLoop
      rw [Prog.bind_of_ok (run_inodeAt hp), if_pos (by omega)]
      rfl
  | succ l ih =>
      obtain ⟨n, rfl⟩ := Nat.exists_eq_succ_of_ne_zero (Nat.ne_of_gt (Nat.lt_of_le_of_lt
        (Nat.zero_le _) hn))
      obtain ⟨out, hread, hout⟩ := h.inodeRead (by omega : off + 32 ≤ 32 * m) de
      have hcmp : strcmpEq name out = strcmpEq name (bytes.from off) :=
        strcmpEq_congr fun a h0 ha => hout a h0 (by omega)
      unfold RecoverOS.lookUpLoop findEntry
      rw [Prog.bind_of_ok (run_inodeAt hp), if_neg (by omega), Prog.bind_of_ok hread,
        if_neg (show ¬ (32 : Int) = -1 by decide)]
      show (if strcmpEq name out = true then _ else _ : Prog FS _) s = _
      rw [hcmp]
      by_cases hP : strcmpEq name (bytes.from off) = true
      · rw [if_pos hP, if_pos hP]
        show _ = (do
          let inode ← inodeOpen (entryNo (bytes.from off))
          pure (some (inode, off)) : Prog FS (Option (Nat × Nat))) s
        rw [← entryNo_congr hout]
      · rw [if_neg hP, if_neg hP]
        exact ih (by simp only [sizeofDirEntry]; omega) (by omega) out

theorem IsDir.dirLookUp (h : IsDir s p m bytes) {name : List Byte} (hname : name.length < 32) :
    dirLookUp p name s =
      match findEntry (strcmpEq name) bytes m 0 with
      | none => .ok (none, s)
      | some o => (do
          let inode ← inodeOpen (entryNo (bytes.from o))
          pure (some (inode, o)) : Prog FS (Option (Nat × Nat))) s := by
  obtain ⟨i, hp, htype, -, -⟩ := h.object
  have hle := h.le
  have hm : m < 2240 + 2 := by omega
  unfold RecoverOS.dirLookUp
  rw [Prog.bind_of_ok (run_inodeAt hp), Prog.run_assert_bind htype]
  exact h.lookUpLoop hname (by omega) hm _

/-- `dir_link` writes the first free entry, or a new one at the end. -/
theorem IsDir.linkLoop (h : IsDir s p m bytes) {dir_e : DirEntry} {l off n : Nat}
    (hend : off + 32 * l = 32 * m) (hn : l < n) (de : Buf) :
    linkLoop p dir_e n off de s = (do
      let r ← inodeWrite p dir_e.encode sizeofDirEntry
        ((findEntry (fun b => entryType b == FT_UNKNOWN) bytes l off).getD (32 * m))
      pure (r != -1) : Prog FS Bool) s := by
  obtain ⟨i, hp, -, hsize, -⟩ := h.object
  induction l generalizing off n de with
  | zero =>
      obtain ⟨n, rfl⟩ := Nat.exists_eq_succ_of_ne_zero (Nat.ne_of_gt hn)
      unfold RecoverOS.linkLoop
      rw [Prog.bind_of_ok (run_inodeAt hp), if_pos (by omega), hsize]
      rfl
  | succ l ih =>
      obtain ⟨n, rfl⟩ := Nat.exists_eq_succ_of_ne_zero (Nat.ne_of_gt (Nat.lt_of_le_of_lt
        (Nat.zero_le _) hn))
      obtain ⟨out, hread, hout⟩ := h.inodeRead (by omega : off + 32 ≤ 32 * m) de
      unfold RecoverOS.linkLoop findEntry
      rw [Prog.bind_of_ok (run_inodeAt hp), if_neg (by omega), Prog.bind_of_ok hread,
        if_neg (show ¬ (32 : Int) = -1 by decide)]
      show (if entryType out = FT_UNKNOWN then _ else _ : Prog FS Bool) s = _
      rw [entryType_congr hout]
      by_cases hP : entryType (bytes.from off) = FT_UNKNOWN
      · rw [if_pos hP, if_pos (by simpa using hP)]
        rfl
      · rw [if_neg hP, if_neg (by simpa using hP)]
        exact ih (by simp only [sizeofDirEntry]; omega) (by omega) out

end Loops

/-! ## Writing an entry -/

section Write

variable {s s' : FS} {p m k : Nat} {bytes buf : Buf}

/-- A slot in a block of the directory needs no block. -/
theorem blocksNeeded_inside {i : Inode} (hcov : Covered s) (hinv : Inv s) (hp : s.inodes p = some i)
    (hk : 512 * (32 * k / 512) < i.i_size) : blocksNeeded s i (32 * k) 32 = 0 := by
  have hblock : i.blocks s.disk (32 * k / 512) ≠ 0 := hcov _ i (hinv.copy hp) _ hk
  have hneed : needIndirect i (32 * k + 32) = 0 := by
    unfold needIndirect
    rw [if_neg]
    rintro ⟨h12, hlast⟩
    exact hblock (Inode.blocks_no_indirect h12 (by omega))
  have hmissing : missing (i.blocks s.disk) (32 * k / 512) ((32 * k + 32 + 511) / 512) = 0 := by
    rw [show (32 * k + 32 + 511) / 512 = 32 * k / 512 + 1 by omega, missing_step _ (by omega),
      if_neg hblock, missing_self]
  unfold blocksNeeded
  rw [hneed, hmissing]

/-- Writing an entry at its place or at the end: it is stored, or the directory's blocks are full, there
    is no room for a new one and nothing has changed. -/
theorem IsDir.inodeWrite (h : IsDir s p m bytes) (hk : k ≤ m) (buf : Buf) :
    ∃ r s', inodeWrite p buf sizeofDirEntry (32 * k) s = .ok (r, s') ∧
      s'.inode_bitmap = s.inode_bitmap ∧
      ((r = 32 ∧ IsDir s' p (max m (k + 1)) (bytes.patch (32 * k) 32 buf)) ∨
        (r = -1 ∧ k = m ∧ 32 * m % 512 = 0 ∧ IsDir s' p m bytes)) := by
  obtain ⟨i, hp, htype, hsize, hbytes⟩ := h.object
  have hle := h.inv.size_le hp
  by_cases hfit : 32 * k + 32 ≤ 71680
  · have hwrite : ∃ r s', RecoverOS.inodeWrite p buf 32 (32 * k) s = .ok (r, s') ∧
        ((r = 32 ∧ ∀ i', s'.inodes p = some i' → ∀ j < 32, i'.byte s'.disk (32 * k + j) = buf j) ∨
          (r = -1 ∧ k = m ∧ 32 * m % 512 = 0)) := by
      rcases inodeWrite_run buf h.inv hp hfit with
        ⟨-, s', i', hrun, hobj, hblock, hst⟩ | ⟨hfull, s', stop, hrun, -⟩
      · refine ⟨32, s', hrun, .inl ⟨rfl, fun j' hj' j hj => ?_⟩⟩
        rw [hobj] at hj'
        cases hj'
        have hend : storedEnd (32 * k) 32 = 32 * k + 32 := by
          unfold storedEnd
          rw [if_neg (by omega)]
        rw [byte_written (fun b h1 h2 => (hblock b h1 h2).1) hst hj, if_pos (by omega)]
      · refine ⟨-1, s', hrun, .inr ⟨rfl, ?_⟩⟩
        by_contra hne
        have hk' : 512 * (32 * k / 512) < i.i_size := by
          rw [hsize]
          omega
        rw [blocksNeeded_inside h.covered h.inv hp hk'] at hfull
        omega
    obtain ⟨r, s', hrun, hres⟩ := hwrite
    obtain ⟨hinv', i', hframe, hcases⟩ := inodeWrite_cases h.inv hp hrun
    have hcov' := covered_inodeWrite h.inv h.covered hp (by omega) hfit hrun
    have hobj := hframe.changes.object'
    have hkept : ∀ a < 32 * m, a < 32 * k ∨ 32 * k + 32 ≤ a → i'.byte s'.disk a = bytes a :=
      fun a ha hout => (byte_kept h.inv h.covered hp hfit hrun hobj (by omega) hout).trans
        (hbytes a ha)
    refine ⟨r, s', hrun, hframe.changes.inode_bitmap, ?_⟩
    rcases hres with ⟨rfl, hstored⟩ | ⟨rfl, rfl, hblocks⟩
    · refine .inl ⟨rfl, hinv', hcov', i', hobj, hframe.type.trans htype, ?_, fun a ha => ?_⟩
      · rcases hcases with ⟨hr, -⟩ | ⟨-, -, hdone⟩
        · cases hr
        · have hu : u64 (32 * k + 32) = 32 * k + 32 := u64_of_lt (by omega)
          rw [hdone.size, hu]
          omega
      · by_cases hin : 32 * k ≤ a ∧ a < 32 * k + 32
        · have hst := hstored i' hobj (a - 32 * k) (by omega)
          rw [Buf.patch_inside _ _ hin.1 hin.2, ← hst]
          congr 1
          omega
        · rw [Buf.patch_outside _ _ (by omega)]
          exact hkept a (by omega) (by omega)
    · refine .inr ⟨rfl, rfl, hblocks, hinv', hcov', i', hobj, hframe.type.trans htype, ?_, fun a ha =>
        hkept a ha (.inl (by omega))⟩
      rcases hcases with ⟨-, hsame, -⟩ | ⟨hr, -⟩
      · omega
      · rw [s64_of_lt (by decide)] at hr
        cases hr
  · have hlast : u64 (32 * k + 32) > MAX_FILE_SIZE := by
      rw [u64_of_lt (by omega)]
      exact Nat.lt_of_not_le hfit
    exact ⟨-1, s, inodeWrite_too_long hlast, rfl, .inr ⟨rfl, by omega, by omega, h⟩⟩

end Write

/-! ## Opening and closing the inode of an entry -/

section OpenClose

variable {s : FS} {p q m no : Nat} {bytes : Buf} {j : Inode}

theorem IsDir.openCount (h : IsDir s p m bytes) (hq : s.inodes q = some j) {n : Nat} (hn : 0 < n) :
    IsDir (s.setObject q { j with i_open_cnts := n }) p m bytes := by
  obtain ⟨i, hp, htype, hsize, hbytes⟩ := h.object
  refine ⟨inv_openCount h.inv hq hn, covered_openCount h.inv h.covered hq, ?_⟩
  by_cases hqp : q = p
  · subst hqp
    rw [hq] at hp
    cases hp
    exact ⟨_, Function.update_self .., htype, hsize, hbytes⟩
  · exact ⟨i, (Function.update_of_ne (Ne.symm hqp) _ _).trans hp, htype, hsize, hbytes⟩

/-- Opening an allocated inode leaves a directory as it is; if it is the directory itself, it has
    another reference. -/
theorem IsDir.inodeOpen (h : IsDir s p m bytes) (ha : s.allocated no) :
    ∃ q j s', inodeOpen no s = .ok (q, s') ∧ IsDir s' p m bytes ∧ s'.inodes q = some j ∧
      j.i_no = no ∧ s'.inode_bitmap = s.inode_bitmap ∧ (q = p → 1 < j.i_open_cnts) := by
  rcases inodeOpen_cases ha with ⟨q, j, hq, hno, hrun⟩ | ⟨hnone, hrun⟩
  · have hcnt := h.inv.table.counted q j hq
    exact ⟨q, _, _, hrun, h.openCount hq (Nat.succ_pos _), Function.update_self .., hno, rfl,
      fun _ => Nat.succ_lt_succ hcnt⟩
  · obtain ⟨i, hp, htype, hsize, hbytes⟩ := h.object
    have hne : p ≠ s.next := Nat.ne_of_lt (h.inv.table.fresh p i hp)
    refine ⟨s.next, s.opened no, s.loadInode no, hrun, ⟨inv_loadInode h.inv ha hnone,
      covered_loadInode h.inv h.covered ha, i, ?_, htype, hsize, hbytes⟩, Function.update_self ..,
      h.inv.recorded no ha, rfl, fun heq => absurd heq.symm hne⟩
    exact (Function.update_of_ne hne _ _).trans hp

theorem IsDir.inodeClose (h : IsDir s p m bytes) (hq : s.inodes q = some j)
    (hcnt : q = p → 1 < j.i_open_cnts) :
    ∃ s', inodeClose q s = .ok ((), s') ∧ IsDir s' p m bytes ∧ s'.inode_bitmap = s.inode_bitmap := by
  by_cases hroot : q = s.root_dir_inode
  · exact ⟨s, inodeClose_root hroot, h, rfl⟩
  · by_cases hone : j.i_open_cnts = 1
    · have hqp : p ≠ q := by
        rintro rfl
        exact absurd hone (Nat.ne_of_gt (hcnt rfl))
      have hrun := inodeClose_last hroot hq hone
      obtain ⟨i, hp, htype, hsize, hbytes⟩ := h.object
      refine ⟨_, hrun, ⟨inv_inodeClose h.inv hrun, covered_inodeClose h.inv h.covered hrun, i, ?_,
        htype, hsize, hbytes⟩, rfl⟩
      exact (Function.update_of_ne hqp _ _).trans hp
    · have hpos := h.inv.table.counted q j hq
      exact ⟨_, inodeClose_more hroot hq hone, h.openCount hq (by omega), rfl⟩

end OpenClose

/-! ## Directories as finite maps -/

/-- A name that fits a directory entry. -/
structure ValidName (name : List Byte) : Prop where
  nonempty : name ≠ []
  string : 0 ∉ name
  length : name.length < MAX_FILE_NAME_LEN

/-- An entry that may be linked. -/
structure DirEntry.Valid (dir_e : DirEntry) : Prop where
  name : ValidName dir_e.filename
  live : dir_e.f_type ≠ FT_UNKNOWN
  type : dir_e.f_type < 2 ^ 32

/-- Entry `k` is live and binds `name` to inode number `no`. -/
def BindsAt (m : Nat) (bytes : Buf) (k : Nat) (name : List Byte) (no : Nat) : Prop :=
  k < m ∧ entryType (bytes.from (32 * k)) ≠ FT_UNKNOWN ∧
    strcmpEq name (bytes.from (32 * k)) = true ∧ entryNo (bytes.from (32 * k)) = no

/-- Every entry is erased, with an empty name, or live with a name of its own and an inode number for
    which `ok` holds. -/
structure Entries (ok : Nat → Prop) (m : Nat) (bytes : Buf) : Prop where
  slot : ∀ k < m, (entryType (bytes.from (32 * k)) = FT_UNKNOWN ∧ bytes (32 * k) = 0) ∨
    ∃ name no, ValidName name ∧ BindsAt m bytes k name no ∧ ok no
  unique : ∀ k k' name no no', ValidName name → BindsAt m bytes k name no →
    BindsAt m bytes k' name no' → k = k'

section Entries

variable {ok : Nat → Prop} {m k : Nat} {bytes : Buf} {name : List Byte}

/-- An entry with a name is live. -/
theorem Entries.binds (h : Entries ok m bytes) (hname : ValidName name) (hk : k < m)
    (hcmp : strcmpEq name (bytes.from (32 * k)) = true) :
    ∃ no, BindsAt m bytes k name no ∧ ok no := by
  obtain ⟨-, hzero⟩ | ⟨name', no, hname', hb, hok⟩ := h.slot k hk
  · rw [strcmpEq_of_nil hname.nonempty hname.string hzero] at hcmp
    cases hcmp
  · exact ⟨no, ⟨hk, hb.2.1, hcmp, hb.2.2.2⟩, hok⟩

theorem Entries.find_some (h : Entries ok m bytes) (hname : ValidName name) {o : Nat}
    (hfind : findEntry (strcmpEq name) bytes m 0 = some o) :
    ∃ k no, o = 32 * k ∧ BindsAt m bytes k name no ∧ ok no ∧ entryNo (bytes.from o) = no := by
  obtain ⟨hcmp, k, hk, ho⟩ := findEntry_some hfind
  have ho' : o = 32 * k := by omega
  rw [ho'] at hcmp
  obtain ⟨no, hb, hok⟩ := h.binds hname hk hcmp
  exact ⟨k, no, ho', hb, hok, ho' ▸ hb.2.2.2⟩

theorem find_none (hfind : findEntry (strcmpEq name) bytes m 0 = none) (k no : Nat) :
    ¬ BindsAt m bytes k name no := by
  rintro ⟨hk, -, hcmp, -⟩
  have hnot := findEntry_none hfind hk
  rw [Nat.zero_add, hcmp] at hnot
  cases hnot

/-- An entry only depends on its bytes. -/
theorem bindsAt_congr {bytes' : Buf} {m' : Nat} (hm : k < m ↔ k < m') (hname : ValidName name)
    (hagree : Buf.Agree (bytes'.from (32 * k)) (bytes.from (32 * k)) 0 32) (no : Nat) :
    BindsAt m' bytes' k name no ↔ BindsAt m bytes k name no := by
  have hlen := hname.length
  have hcmp : strcmpEq name (bytes'.from (32 * k)) = strcmpEq name (bytes.from (32 * k)) :=
    strcmpEq_congr fun a h0 ha => hagree a h0 (by simp only [MAX_FILE_NAME_LEN] at hlen; omega)
  unfold BindsAt
  rw [entryType_congr hagree, entryNo_congr hagree, hcmp, hm]

theorem agree_patch_other {buf : Buf} {l : Nat} (hl : l ≠ k) :
    Buf.Agree ((bytes.patch (32 * k) 32 buf).from (32 * l)) (bytes.from (32 * l)) 0 32 :=
  fun a _ ha => Buf.patch_outside _ _ (by omega)

theorem agree_patch_self (buf : Buf) :
    Buf.Agree ((bytes.patch (32 * k) 32 buf).from (32 * k)) buf 0 32 :=
  fun a _ ha => Buf.from_patch_same _ _ _ _ (by omega)

end Entries

section Put

variable {buf : Buf} {off no f_type : Nat} {name : List Byte}

theorem entryType_putDirEntry (h : f_type < 2 ^ 32) :
    entryType ((putDirEntry buf off name no f_type).from off) = f_type := by
  unfold entryType
  rw [Buf.getLE_from]
  exact Buf.getLE_putLE_of_lt _ _ h

theorem entryNo_putDirEntry (h : no < 2 ^ 64) :
    entryNo ((putDirEntry buf off name no f_type).from off) = no := by
  unfold entryNo
  rw [Buf.getLE_from]
  exact (Buf.getLE_putLE_disjoint _ _ (by omega)).trans (Buf.getLE_putLE_of_lt _ _ h)

theorem strcmpEq_putDirEntry (hlen : name.length < MAX_FILE_NAME_LEN) :
    strcmpEq name ((putDirEntry buf off name no f_type).from off) = true := by
  simp only [MAX_FILE_NAME_LEN] at hlen
  refine strcmpEq_getD _ fun k hk => ?_
  unfold putDirEntry Buf.putLE
  rw [Buf.from_apply, Buf.patch_outside _ _ (by omega), Buf.patch_outside _ _ (by omega),
    Buf.patch_inside _ _ (by omega) (by omega), Nat.add_sub_cancel_left]

theorem putDirEntry_agree (h : ValidName name) {pos n : Nat} (hapart : pos + n ≤ off ∨ off + 32 ≤ pos) :
    Buf.Agree (putDirEntry buf off name no f_type) buf pos n := by
  have hlen := h.length
  simp only [MAX_FILE_NAME_LEN] at hlen
  intro a h1 h2
  unfold putDirEntry Buf.putLE
  rw [Buf.patch_outside _ _ (by omega), Buf.patch_outside _ _ (by omega),
    Buf.patch_outside _ _ (by omega)]

end Put

namespace DirEntry

variable {dir_e : DirEntry}

theorem entryType_encode (h : dir_e.Valid) : entryType dir_e.encode = dir_e.f_type :=
  @entryType_putDirEntry Buf.zero 0 dir_e.i_no dir_e.f_type dir_e.filename h.type

theorem entryNo_encode (h : dir_e.i_no < 2 ^ 64) : entryNo dir_e.encode = dir_e.i_no :=
  @entryNo_putDirEntry Buf.zero 0 dir_e.i_no dir_e.f_type dir_e.filename h

theorem strcmpEq_encode (hlen : dir_e.filename.length < MAX_FILE_NAME_LEN) :
    strcmpEq dir_e.filename dir_e.encode = true := by
  have hput := @strcmpEq_putDirEntry Buf.zero 0 dir_e.i_no dir_e.f_type dir_e.filename hlen
  rwa [Buf.from_zero] at hput

end DirEntry

section Update

variable {ok : Nat → Prop} {m k : Nat} {bytes : Buf}

/-- The bindings after an entry was written to a free slot or to the end. -/
theorem bindsAt_link {dir_e : DirEntry} (he : dir_e.Valid) (hno : dir_e.i_no < 2 ^ 64) (hk : k ≤ m)
    {l : Nat} {name : List Byte} (hname : ValidName name) (no : Nat) :
    BindsAt (max m (k + 1)) (bytes.patch (32 * k) 32 dir_e.encode) l name no ↔
      (l ≠ k ∧ BindsAt m bytes l name no) ∨
        (l = k ∧ name = dir_e.filename ∧ no = dir_e.i_no) := by
  by_cases hl : l = k
  · subst hl
    have hself : Buf.Agree ((bytes.patch (32 * l) 32 dir_e.encode).from (32 * l)) dir_e.encode 0 32 :=
      agree_patch_self dir_e.encode
    have hlen := hname.length
    have hcmp : strcmpEq name ((bytes.patch (32 * l) 32 dir_e.encode).from (32 * l)) =
        strcmpEq name dir_e.encode :=
      strcmpEq_congr fun a h0 ha => hself a h0 (by simp only [MAX_FILE_NAME_LEN] at hlen; omega)
    unfold BindsAt
    rw [entryType_congr hself, entryNo_congr hself, hcmp, DirEntry.entryType_encode he,
      DirEntry.entryNo_encode hno]
    constructor
    · rintro ⟨-, -, heq, rfl⟩
      exact .inr ⟨rfl, strcmpEq_inj hname.string he.name.string heq (DirEntry.strcmpEq_encode he.name.length), rfl⟩
    · rintro (⟨hne, -⟩ | ⟨-, rfl, rfl⟩)
      · exact absurd rfl hne
      · exact ⟨by omega, he.live, DirEntry.strcmpEq_encode he.name.length, rfl⟩
  · rw [bindsAt_congr (m := m) (by omega) hname (agree_patch_other hl)]
    constructor
    · exact fun hb => .inl ⟨hl, hb⟩
    · rintro (⟨-, hb⟩ | ⟨heq, -⟩)
      · exact hb
      · exact absurd heq hl

/-- Linking an absent name in a free slot or at the end. -/
theorem Entries.link (h : Entries ok m bytes) {dir_e : DirEntry} (he : dir_e.Valid)
    (hno : dir_e.i_no < 2 ^ 64) (hok : ok dir_e.i_no) (hk : k ≤ m)
    (habsent : ∀ l no, ¬ BindsAt m bytes l dir_e.filename no) :
    Entries ok (max m (k + 1)) (bytes.patch (32 * k) 32 dir_e.encode) where
  slot := fun l hl => by
    by_cases hlk : l = k
    · refine .inr ⟨dir_e.filename, dir_e.i_no, he.name, ?_, hok⟩
      exact (bindsAt_link he hno hk he.name _).2 (.inr ⟨hlk, rfl, rfl⟩)
    · obtain ⟨htype, hzero⟩ | ⟨name, no, hname, hb, hok'⟩ := h.slot l (by omega)
      · refine .inl ⟨(entryType_congr (agree_patch_other hlk)).trans htype, ?_⟩
        exact (Buf.patch_outside _ _ (by omega)).trans hzero
      · exact .inr ⟨name, no, hname, (bindsAt_link he hno hk hname no).2 (.inl ⟨hlk, hb⟩), hok'⟩
  unique := fun l l' name no no' hname hb hb' => by
    obtain ⟨-, hold⟩ | ⟨hl, hnew, -⟩ := (bindsAt_link he hno hk hname no).1 hb
    · obtain ⟨-, hold'⟩ | ⟨-, hnew', -⟩ := (bindsAt_link he hno hk hname no').1 hb'
      · exact h.unique l l' name no no' hname hold hold'
      · exact absurd (hnew' ▸ hold) (habsent l no)
    · obtain ⟨-, hold'⟩ | ⟨hl', -⟩ := (bindsAt_link he hno hk hname no').1 hb'
      · exact absurd (hnew ▸ hold') (habsent l' no')
      · rw [hl, hl']

/-- The bindings after an entry was erased. -/
theorem bindsAt_erase {l : Nat} {name : List Byte} (hname : ValidName name) (no : Nat) :
    BindsAt m (bytes.patch (32 * k) 32 Buf.zero) l name no ↔ l ≠ k ∧ BindsAt m bytes l name no := by
  by_cases hl : l = k
  · subst hl
    constructor
    · rintro ⟨-, -, hcmp, -⟩
      rw [strcmpEq_of_nil hname.nonempty hname.string] at hcmp
      · cases hcmp
      · exact (agree_patch_self Buf.zero) 0 (Nat.le_refl 0) (by decide)
    · exact fun hb => absurd rfl hb.1
  · rw [bindsAt_congr (m := m) Iff.rfl hname (agree_patch_other hl)]
    exact ⟨fun hb => ⟨hl, hb⟩, fun hb => hb.2⟩

theorem Entries.erase (h : Entries ok m bytes) (k : Nat) :
    Entries ok m (bytes.patch (32 * k) 32 Buf.zero) where
  slot := fun l hl => by
    by_cases hlk : l = k
    · subst hlk
      have hself : Buf.Agree ((bytes.patch (32 * l) 32 Buf.zero).from (32 * l)) Buf.zero 0 32 :=
        agree_patch_self Buf.zero
      exact .inl ⟨entryType_congr hself, hself 0 (Nat.le_refl 0) (by decide)⟩
    · obtain ⟨htype, hzero⟩ | ⟨name, no, hname, hb, hok⟩ := h.slot l hl
      · refine .inl ⟨(entryType_congr (agree_patch_other hlk)).trans htype, ?_⟩
        exact (Buf.patch_outside _ _ (by omega)).trans hzero
      · exact .inr ⟨name, no, hname, (bindsAt_erase hname no).2 ⟨hlk, hb⟩, hok⟩
  unique := fun l l' name no no' hname hb hb' =>
    h.unique l l' name no no' hname ((bindsAt_erase hname no).1 hb).2
      ((bindsAt_erase hname no').1 hb').2

end Update

/-! ## The calls -/

section Calls

variable {s : FS} {p m : Nat} {bytes : Buf}

/-- A directory whose entries make up a map. -/
structure IsMap (s : FS) (p m : Nat) (bytes : Buf) : Prop extends IsDir s p m bytes where
  entries : Entries s.allocated m bytes

/-- Some entry binds `name` to `no`. -/
def Bound (m : Nat) (bytes : Buf) (name : List Byte) (no : Nat) : Prop :=
  ∃ k, BindsAt m bytes k name no

theorem IsDir.isMap {s' : FS} (h : IsDir s' p m bytes) (hbm : s'.inode_bitmap = s.inode_bitmap)
    (he : Entries s.allocated m bytes) : IsMap s' p m bytes := by
  refine ⟨h, ⟨fun k hk => ?_, he.unique⟩⟩
  obtain herased | ⟨name, no, hname, hb, hok⟩ := he.slot k hk
  · exact .inl herased
  · exact .inr ⟨name, no, hname, hb, (FS.allocated_congr hbm).2 hok⟩

/-- A look-up of a name that is not there. -/
theorem IsMap.dirLookUp_absent (h : IsMap s p m bytes) {name : List Byte} (hname : ValidName name)
    (hnone : findEntry (strcmpEq name) bytes m 0 = none) :
    dirLookUp p name s = .ok (none, s) ∧ ∀ no, ¬ Bound m bytes name no := by
  refine ⟨?_, fun no ⟨k, hb⟩ => find_none hnone k no hb⟩
  rw [h.dirLookUp (Nat.lt_trans hname.length (by decide)), hnone]

/-- A look-up of a name that is there opens its inode, which may be closed again. -/
theorem IsMap.dirLookUp_present (h : IsMap s p m bytes) {name : List Byte} (hname : ValidName name)
    {o : Nat} (hsome : findEntry (strcmpEq name) bytes m 0 = some o) :
    ∃ k no q j s' s'', o = 32 * k ∧ BindsAt m bytes k name no ∧
      dirLookUp p name s = .ok (some (q, o), s') ∧ s'.inodes q = some j ∧ j.i_no = no ∧
      inodeClose q s' = .ok ((), s'') ∧ IsDir s'' p m bytes ∧
      s''.inode_bitmap = s.inode_bitmap := by
  obtain ⟨k, no, ho, hb, hok, hno⟩ := h.entries.find_some hname hsome
  obtain ⟨q, j, s', hopen, hdir, hq, hj, hbm, hcnt⟩ := h.toIsDir.inodeOpen hok
  obtain ⟨s'', hclose, hdir', hbm'⟩ := hdir.inodeClose hq hcnt
  refine ⟨k, no, q, j, s', s'', ho, hb, ?_, hq, hj, hclose, hdir', hbm'.trans hbm⟩
  rw [h.dirLookUp (Nat.lt_trans hname.length (by decide)), hsome]
  show (RecoverOS.inodeOpen (entryNo (bytes.from o)) >>= _) s = _
  rw [hno, Prog.bind_of_ok hopen]
  rfl

/-- A link of a name that is not there writes a slot that binds nothing, or finds no block for a new one. -/
theorem IsMap.dirLink_absent (h : IsMap s p m bytes) {dir_e : DirEntry} (hname : ValidName dir_e.filename)
    (hnone : findEntry (strcmpEq dir_e.filename) bytes m 0 = none) :
    ∃ k r s', k ≤ m ∧ (∀ name no, ¬ BindsAt m bytes k name no) ∧ dirLink p dir_e s = .ok (r != -1, s') ∧
      s'.inode_bitmap = s.inode_bitmap ∧
      ((r = 32 ∧ IsDir s' p (max m (k + 1)) (bytes.patch (32 * k) 32 dir_e.encode)) ∨
        (r = -1 ∧ k = m ∧ 32 * m % 512 = 0 ∧ IsDir s' p m bytes)) := by
  have hlook := (h.dirLookUp_absent hname hnone).1
  have hm := h.toIsDir.le
  -- the slot that is written
  obtain ⟨k, hk, hslot⟩ : ∃ k ≤ m,
      (findEntry (fun b => entryType b == FT_UNKNOWN) bytes m 0).getD (32 * m) = 32 * k ∧
        ∀ name no, ¬ BindsAt m bytes k name no := by
    cases hfree : findEntry (fun b => entryType b == FT_UNKNOWN) bytes m 0 with
    | none =>
        exact ⟨m, Nat.le_refl m, rfl, fun _ _ hb => absurd hb.1 (Nat.lt_irrefl m)⟩
    | some o =>
        obtain ⟨htype, k, hk, ho⟩ := findEntry_some hfree
        rw [Nat.zero_add] at ho
        rw [ho] at htype
        refine ⟨k, Nat.le_of_lt hk, ho, fun _ _ hb => hb.2.1 (by simpa using htype)⟩
  obtain ⟨r, s', hwrite, hbm, hres⟩ := h.toIsDir.inodeWrite hk dir_e.encode
  refine ⟨k, r, s', hk, hslot.2, ?_, hbm, hres⟩
  unfold RecoverOS.dirLink
  rw [Prog.bind_of_ok hlook]
  refine (h.toIsDir.linkLoop (l := m) (by omega) (by show m < 2240 + 2; omega) _).trans ?_
  rw [hslot.1, Prog.bind_of_ok hwrite]
  rfl

theorem IsMap.dirLink (h : IsMap s p m bytes) {dir_e : DirEntry} (he : dir_e.Valid)
    (ha : s.allocated dir_e.i_no) :
    ∃ b s' m' bytes', dirLink p dir_e s = .ok (b, s') ∧ IsMap s' p m' bytes' ∧
      s'.inode_bitmap = s.inode_bitmap ∧ (b = true → ∀ no, ¬ Bound m bytes dir_e.filename no) ∧
      ∀ name no, ValidName name → (Bound m' bytes' name no ↔
        Bound m bytes name no ∨ (b = true ∧ name = dir_e.filename ∧ no = dir_e.i_no)) := by
  cases hfind : findEntry (strcmpEq dir_e.filename) bytes m 0 with
  | some o =>
      obtain ⟨k, no, q, j, s', s'', -, -, hlook, -, -, hclose, hdir, hbm⟩ :=
        h.dirLookUp_present he.name hfind
      refine ⟨false, s'', m, bytes, ?_, hdir.isMap hbm h.entries, hbm, fun hb => absurd hb Bool.false_ne_true,
        fun name no _ => ?_⟩
      · unfold RecoverOS.dirLink
        rw [Prog.bind_of_ok hlook]
        show (RecoverOS.inodeClose q >>= _) s' = _
        rw [Prog.bind_of_ok hclose]
        rfl
      · simp
  | none =>
      have habsent := (h.dirLookUp_absent he.name hfind).2
      have hno : dir_e.i_no < 2 ^ 64 := Nat.lt_trans ha.1 (by decide)
      obtain ⟨k, r, s', hk, hslot, hrun, hbm, hres⟩ := h.dirLink_absent he.name hfind
      rcases hres with ⟨rfl, hdir⟩ | ⟨rfl, -, -, hdir⟩
      · refine ⟨true, s', _, _, hrun, hdir.isMap hbm (h.entries.link he hno ha hk
          fun l no hb => habsent no ⟨l, hb⟩), hbm, fun _ => habsent, fun name no hname => ?_⟩
        constructor
        · rintro ⟨l, hb⟩
          obtain ⟨-, hold⟩ | ⟨-, hnew⟩ := (bindsAt_link he hno hk hname no).1 hb
          · exact .inl ⟨l, hold⟩
          · exact .inr ⟨rfl, hnew⟩
        · rintro (⟨l, hb⟩ | ⟨-, hnew⟩)
          · have hl : l ≠ k := fun heq => hslot name no (heq ▸ hb)
            exact ⟨l, (bindsAt_link he hno hk hname no).2 (.inl ⟨hl, hb⟩)⟩
          · exact ⟨k, (bindsAt_link he hno hk hname no).2 (.inr ⟨rfl, hnew⟩)⟩
      · refine ⟨false, s', m, bytes, hrun, hdir.isMap hbm h.entries, hbm, fun hb => absurd hb Bool.false_ne_true,
          fun name no _ => ?_⟩
        simp

theorem IsMap.dirUnlink (h : IsMap s p m bytes) {name : List Byte} (hname : ValidName name) :
    ∃ b s' m' bytes', dirUnlink p name s = .ok (b, s') ∧ IsMap s' p m' bytes' ∧
      s'.inode_bitmap = s.inode_bitmap ∧ (b = true ↔ ∃ no, Bound m bytes name no) ∧
      ∀ name' no, ValidName name' → (Bound m' bytes' name' no ↔
        Bound m bytes name' no ∧ name' ≠ name) := by
  unfold RecoverOS.dirUnlink
  cases hfind : findEntry (strcmpEq name) bytes m 0 with
  | none =>
      obtain ⟨hlook, habsent⟩ := h.dirLookUp_absent hname hfind
      refine ⟨false, s, m, bytes, ?_, h, rfl, ⟨fun hb => absurd hb Bool.false_ne_true, fun ⟨no, hb⟩ =>
        absurd hb (habsent no)⟩, fun name' no _ => ⟨fun hb => ⟨hb, ?_⟩, fun hb => hb.1⟩⟩
      · rw [Prog.bind_of_ok hlook]
        rfl
      · rintro rfl
        exact habsent no hb
  | some o =>
      obtain ⟨k, no0, q, j, s', s'', ho, hb0, hlook, -, -, hclose, hdir, hbm⟩ :=
        h.dirLookUp_present hname hfind
      have hk := hb0.1
      obtain ⟨r, s3, hwrite, hbm3, hres⟩ := hdir.inodeWrite (Nat.le_of_lt hk) Buf.zero
      have hdir3 : IsDir s3 p m (bytes.patch (32 * k) 32 Buf.zero) := by
        rcases hres with ⟨-, hdir3⟩ | ⟨-, heq, -⟩
        · rwa [Nat.max_eq_left (by omega : k + 1 ≤ m)] at hdir3
        · omega
      refine ⟨true, s3, m, _, ?_, hdir3.isMap (hbm3.trans hbm) (h.entries.erase k), hbm3.trans hbm,
        ⟨fun _ => ⟨no0, k, hb0⟩, fun _ => rfl⟩, fun name' no hname' => ?_⟩
      · rw [Prog.bind_of_ok hlook]
        show (RecoverOS.inodeClose q >>= _) s' = _
        rw [Prog.bind_of_ok hclose, ho, Prog.bind_of_ok hwrite]
        rfl
      · constructor
        · rintro ⟨l, hb⟩
          obtain ⟨hl, hold⟩ := (bindsAt_erase hname' no).1 hb
          refine ⟨⟨l, hold⟩, ?_⟩
          rintro rfl
          exact hl (h.entries.unique l k _ _ _ hname' hold hb0)
        · rintro ⟨⟨l, hb⟩, hne⟩
          have hl : l ≠ k := by
            rintro rfl
            exact hne (strcmpEq_inj hname'.string hname.string hb.2.2.1 hb0.2.2.1)
          exact ⟨l, (bindsAt_erase hname' no).2 ⟨hl, hb⟩⟩

end Calls

end RecoverOS
