import RecoverOS.Fs.Proofs.Dir

set_option autoImplicit false

/-! # A directory is a finite map

What `dir_look_up`, `dir_link` and `dir_unlink` do to the map from names to inode numbers that the
entries of a directory make up, after any sequence of calls. -/

namespace RecoverOS

namespace Inode

/-- The bytes of a file from `off` on. -/
def entry (disk : Buf) (i : Inode) (off : Nat) : Buf := fun k => i.byte disk (off + k)

end Inode

namespace FS

/-- The entry at `off` of the open directory at `p` is live and binds `name` to inode number `no`. -/
def BindsAt (s : FS) (p off : Nat) (name : List Byte) (no : Nat) : Prop :=
  off % sizeofDirEntry = 0 ∧ ∃ i, s.inodes p = some i ∧ off < i.i_size ∧
    entryType (i.entry s.disk off) ≠ FT_UNKNOWN ∧ strcmpEq name (i.entry s.disk off) = true ∧
    entryNo (i.entry s.disk off) = no

/-- The open directory at `p` binds `name` to inode number `no`. -/
def Binds (s : FS) (p : Nat) (name : List Byte) (no : Nat) : Prop := ∃ off, s.BindsAt p off name no

end FS

/-- The open inode at `p` is a directory whose entries are `.` and `..`. -/
structure FreshDirectory (s : FS) (p : Nat) : Prop where
  reachable : ReachableWithin s
  object : ∃ i, s.inodes p = some i ∧ i.f_type = FT_DIRECTORY ∧ i.i_size = sizeofDirEntry * 2
  dot : ∃ no, s.allocated no ∧ s.BindsAt p 0 [dotChar] no
  dotdot : ∃ no, s.allocated no ∧ s.BindsAt p sizeofDirEntry [dotChar, dotChar] no

/-- A call on a directory. -/
inductive DirCall where
  | link (dir_e : DirEntry)
  | unlink (name : List Byte)

namespace DirCall

/-- Names are nonempty and fit; an entry that is linked has a type and names an allocated inode. -/
def Allowed (s : FS) : DirCall → Prop
  | link dir_e => dir_e.Valid ∧ s.allocated dir_e.i_no
  | unlink name => ValidName name

/-- What the call does; the value it returns is dropped. -/
def run (p : Nat) : DirCall → Prog FS Unit
  | link dir_e => do let _ ← dirLink p dir_e; pure ()
  | unlink name => do let _ ← dirUnlink p name; pure ()

/-- One call. -/
def Step (p : Nat) (s : FS) (c : DirCall) (s' : FS) : Prop := c.Allowed s ∧ c.run p s = .ok ((), s')

end DirCall

/-! ## The map on the disk -/

section Map

variable {s : FS} {p m : Nat} {bytes : Buf} {name : List Byte}

theorem IsDir.bindsAt_iff (h : IsDir s p m bytes) (hname : ValidName name) (k no : Nat) :
    s.BindsAt p (32 * k) name no ↔ RecoverOS.BindsAt m bytes k name no := by
  obtain ⟨i, hp, -, hsize, hbytes⟩ := h.object
  have hlen := hname.length
  have hiff : k < m → (s.BindsAt p (32 * k) name no ↔ RecoverOS.BindsAt m bytes k name no) := by
    intro hk
    have hagree : Buf.Agree (i.entry s.disk (32 * k)) (bytes.from (32 * k)) 0 32 :=
      fun a _ ha => hbytes _ (by omega)
    have hcmp : strcmpEq name (i.entry s.disk (32 * k)) = strcmpEq name (bytes.from (32 * k)) :=
      strcmpEq_congr fun a h0 ha => hagree a h0 (by simp only [MAX_FILE_NAME_LEN] at hlen; omega)
    unfold FS.BindsAt RecoverOS.BindsAt
    rw [← entryType_congr hagree, ← entryNo_congr hagree, ← hcmp]
    constructor
    · rintro ⟨-, j, hj, -, hrest⟩
      rw [hp] at hj
      cases hj
      exact ⟨hk, hrest⟩
    · rintro ⟨-, hrest⟩
      exact ⟨Nat.mul_mod_right 32 k, i, hp, by omega, hrest⟩
  constructor
  · intro hb
    obtain ⟨-, j, hj, hlt, -⟩ := id hb
    rw [hp] at hj
    cases hj
    exact (hiff (by omega)).1 hb
  · exact fun hb => (hiff hb.1).2 hb

theorem FS.BindsAt.offset {off no : Nat} (h : s.BindsAt p off name no) : off = 32 * (off / 32) := by
  have hal := h.1
  simp only [sizeofDirEntry] at hal
  omega

theorem IsDir.binds_iff (h : IsDir s p m bytes) (hname : ValidName name) (no : Nat) :
    s.Binds p name no ↔ Bound m bytes name no := by
  constructor
  · rintro ⟨off, hb⟩
    rw [hb.offset] at hb
    exact ⟨off / 32, (h.bindsAt_iff hname _ no).1 hb⟩
  · rintro ⟨k, hb⟩
    exact ⟨32 * k, (h.bindsAt_iff hname k no).2 hb⟩

/-- An entry of the directory that is not erased has a name. -/
theorem IsMap.named (h : IsMap s p m bytes) {off : Nat} {i : Inode} (hp : s.inodes p = some i)
    (hal : off % sizeofDirEntry = 0) (hlt : off < i.i_size)
    (hlive : entryType (i.entry s.disk off) ≠ FT_UNKNOWN) :
    ∃ name no, ValidName name ∧ s.BindsAt p off name no := by
  obtain ⟨j, hj, -, hsize, hbytes⟩ := h.object
  rw [hp] at hj
  cases hj
  obtain ⟨k, rfl⟩ : ∃ k, off = 32 * k := ⟨off / 32, by simp only [sizeofDirEntry] at hal; omega⟩
  have hk : k < m := by omega
  have hagree : Buf.Agree (i.entry s.disk (32 * k)) (bytes.from (32 * k)) 0 32 :=
    fun a _ ha => hbytes _ (by omega)
  obtain ⟨htype, -⟩ | ⟨name, no, hname, hb, -⟩ := h.entries.slot k hk
  · exact absurd ((entryType_congr hagree).trans htype) hlive
  · exact ⟨name, no, hname, (h.toIsDir.bindsAt_iff hname k no).2 hb⟩

theorem IsMap.one_entry (h : IsMap s p m bytes) (hname : ValidName name) {off off' no no' : Nat}
    (hb : s.BindsAt p off name no) (hb' : s.BindsAt p off' name no') : off = off' ∧ no = no' := by
  have hoff := hb.offset
  have hoff' := hb'.offset
  rw [hoff] at hb
  rw [hoff'] at hb'
  have hk := (h.toIsDir.bindsAt_iff hname _ no).1 hb
  have hk' := (h.toIsDir.bindsAt_iff hname _ no').1 hb'
  have heq := h.entries.unique _ _ name no no' hname hk hk'
  rw [heq] at hk
  exact ⟨by omega, hk.2.2.2.symm.trans hk'.2.2.2⟩

theorem IsMap.lookUp (h : IsMap s p m bytes) (hname : ValidName name) :
    ∃ r s', RecoverOS.dirLookUp p name s = .ok (r, s') ∧ ∀ no, s.Binds p name no ↔
      ∃ inode off j, r = some (inode, off) ∧ s'.inodes inode = some j ∧ j.i_no = no := by
  cases hfind : findEntry (strcmpEq name) bytes m 0 with
  | none =>
      obtain ⟨hlook, habsent⟩ := h.dirLookUp_absent hname hfind
      refine ⟨none, s, hlook, fun no => ⟨fun hb => ?_, ?_⟩⟩
      · exact absurd ((h.toIsDir.binds_iff hname no).1 hb) (habsent no)
      · rintro ⟨inode, off, j, hr, -⟩
        cases hr
  | some o =>
      obtain ⟨k, no0, q, j, s', -, -, hb, hlook, hq, hj, -⟩ := h.dirLookUp_present hname hfind
      have hb0 := (h.toIsDir.bindsAt_iff hname k no0).2 hb
      refine ⟨some (q, o), s', hlook, fun no => ⟨?_, ?_⟩⟩
      · rintro ⟨off, hb'⟩
        exact ⟨q, o, j, rfl, hq, hj.trans (h.one_entry hname hb0 hb').2⟩
      · rintro ⟨inode, off, j', hr, hq', hno⟩
        cases hr
        rw [hq] at hq'
        cases hq'
        rw [← hno, hj]
        exact ⟨32 * k, hb0⟩

theorem validName_dot : ValidName [dotChar] := ⟨by decide, by decide, by decide⟩

theorem validName_dotdot : ValidName [dotChar, dotChar] := ⟨by decide, by decide, by decide⟩

theorem FreshDirectory.isMap (h : FreshDirectory s p) : ∃ bytes, IsMap s p 2 bytes := by
  obtain ⟨i, hp, htype, hsize⟩ := h.object
  have hdir : IsDir s p 2 fun a => i.byte s.disk a :=
    ⟨h.reachable.reachable.inv, h.reachable.covered, i, hp, htype, hsize, fun _ _ => rfl⟩
  obtain ⟨no, ha, hdot⟩ := h.dot
  obtain ⟨no', ha', hdotdot⟩ := h.dotdot
  have hdot := (hdir.bindsAt_iff validName_dot 0 no).1 hdot
  have hdotdot := (hdir.bindsAt_iff validName_dotdot 1 no').1 hdotdot
  refine ⟨_, hdir, ⟨fun k hk => ?_, fun k k' name n n' hname hb hb' => ?_⟩⟩
  · obtain rfl | rfl : k = 0 ∨ k = 1 := by omega
    · exact .inr ⟨_, no, validName_dot, hdot, ha⟩
    · exact .inr ⟨_, no', validName_dotdot, hdotdot, ha'⟩
  · have hk := hb.1
    have hk' := hb'.1
    -- the names of entry 0 and entry 1 differ
    have hdiff : ∀ n n', RecoverOS.BindsAt 2 (fun a => i.byte s.disk a) 0 name n →
        ¬ RecoverOS.BindsAt 2 (fun a => i.byte s.disk a) 1 name n' := by
      intro n n' h0 h1
      have heq := strcmpEq_inj hname.string validName_dot.string h0.2.2.1 hdot.2.2.1
      have heq' := strcmpEq_inj hname.string validName_dotdot.string h1.2.2.1 hdotdot.2.2.1
      rw [heq] at heq'
      cases heq'
    obtain rfl | rfl : k = 0 ∨ k = 1 := by omega
    · obtain rfl | rfl : k' = 0 ∨ k' = 1 := by omega
      · rfl
      · exact absurd hb' (hdiff _ _ hb)
    · obtain rfl | rfl : k' = 0 ∨ k' = 1 := by omega
      · exact absurd hb (hdiff _ _ hb')
      · rfl

theorem DirCall.Step.isMap {s' : FS} {c : DirCall} (h : IsMap s p m bytes) (hstep : c.Step p s s') :
    ∃ m' bytes', IsMap s' p m' bytes' := by
  obtain ⟨hallowed, hrun⟩ := hstep
  cases c with
  | link dir_e =>
      obtain ⟨r, hcall⟩ := drop_eq_ok hrun
      obtain ⟨b, t, m', bytes', hlink, hmap, -⟩ := h.dirLink hallowed.1 hallowed.2
      rw [hlink] at hcall
      cases hcall
      exact ⟨m', bytes', hmap⟩
  | unlink name =>
      obtain ⟨r, hcall⟩ := drop_eq_ok hrun
      obtain ⟨b, t, m', bytes', hunlink, hmap, -⟩ := h.dirUnlink hallowed
      rw [hunlink] at hcall
      cases hcall
      exact ⟨m', bytes', hmap⟩

end Map

/-- After any sequence of calls on a directory that started with `.` and `..`: the live entries have
    names of their own, a look-up finds what is bound, `dir_link` adds a binding if it returns `true`
    and the name was absent, and `dir_unlink` removes the binding of a name that was present. -/
theorem directory_map {s0 s : FS} {p : Nat} {cs : List DirCall} (h : FreshDirectory s0 p)
    (hrun : Run (DirCall.Step p) s0 cs s) :
    (∀ off i, s.inodes p = some i → off % sizeofDirEntry = 0 → off < i.i_size →
      entryType (i.entry s.disk off) ≠ FT_UNKNOWN →
        ∃ name no, ValidName name ∧ s.BindsAt p off name no) ∧
    (∀ off off' name no no', ValidName name → s.BindsAt p off name no → s.BindsAt p off' name no' →
      off = off' ∧ no = no') ∧
    (∀ name, ValidName name → ∃ r s', dirLookUp p name s = .ok (r, s') ∧
      ∀ no, s.Binds p name no ↔
        ∃ inode off j, r = some (inode, off) ∧ s'.inodes inode = some j ∧ j.i_no = no) ∧
    (∀ dir_e : DirEntry, dir_e.Valid → s.allocated dir_e.i_no → ∃ b s',
      dirLink p dir_e s = .ok (b, s') ∧ (b = true → ∀ no, ¬ s.Binds p dir_e.filename no) ∧
      ∀ name no, ValidName name → (s'.Binds p name no ↔
        s.Binds p name no ∨ (b = true ∧ name = dir_e.filename ∧ no = dir_e.i_no))) ∧
    ∀ name, ValidName name → ∃ b s', dirUnlink p name s = .ok (b, s') ∧
      (b = true ↔ ∃ no, s.Binds p name no) ∧
      ∀ name' no, ValidName name' → (s'.Binds p name' no ↔ s.Binds p name' no ∧ name' ≠ name) := by
  obtain ⟨m, bytes, hmap⟩ : ∃ m bytes, IsMap s p m bytes := by
    obtain ⟨bytes, h0⟩ := h.isMap
    refine hrun.invariant (I := fun s => ∃ m bytes, IsMap s p m bytes) ?_ ⟨2, bytes, h0⟩
    rintro s c s' ⟨m, bytes, hmap⟩ hstep
    exact hstep.isMap hmap
  have hbinds := fun {name : List Byte} (hname : ValidName name) => hmap.toIsDir.binds_iff hname
  refine ⟨fun off i hp hal hlt hlive => hmap.named hp hal hlt hlive,
    fun off off' name no no' hname hb hb' => hmap.one_entry hname hb hb',
    fun name hname => hmap.lookUp hname, fun dir_e he ha => ?_, fun name hname => ?_⟩
  · obtain ⟨b, s', m', bytes', hlink, hmap', -, habsent, hnew⟩ := hmap.dirLink he ha
    refine ⟨b, s', hlink, fun hb no hn => habsent hb no ((hbinds he.name no).1 hn),
      fun name no hname => ?_⟩
    rw [hmap'.toIsDir.binds_iff hname, hbinds hname]
    exact hnew name no hname
  · obtain ⟨b, s', m', bytes', hunlink, hmap', -, hpresent, hleft⟩ := hmap.dirUnlink hname
    refine ⟨b, s', hunlink, hpresent.trans ?_, fun name' no hname' => ?_⟩
    · exact exists_congr fun no => (hbinds hname no).symm
    · rw [hmap'.toIsDir.binds_iff hname', hbinds hname']
      exact hleft name' no hname'

/-! ## The root directory -/

/-- What `partition_format` stores in the first data block is `.` and `..`. -/
theorem freshDirectory_root {part : Partition} {disk : Buf} {s : FS}
    (h : filesysInit part (FS.boot disk) = .ok ((), s)) : FreshDirectory s s.root_dir_inode := by
  have hreach : ReachableWithin s := ⟨part, disk, s, [], h, .nil⟩
  obtain ⟨t, hm, -, -, -, rfl⟩ := filesysInit_eq h
  obtain ⟨-, hsize, htype, hsec⟩ := hm.record_root
  obtain ⟨buf, hdots⟩ := hm.formatted.dots
  have hdata : t.sb.data_start_lba ≠ 0 := by
    have hl := hm.layout.data_start_lba
    omega
  have hobj : (t.loadInode 0).inodes t.next = some (t.opened 0) := Function.update_self ..
  have hblock : (t.opened 0).blocks t.disk 0 = t.sb.data_start_lba := by
    rw [Inode.blocks_direct (by decide)]
    exact (hsec 0 (by decide)).trans (if_pos rfl)
  have hbyte : ∀ a < 64, (t.opened 0).byte t.disk a = t.disk (512 * t.sb.data_start_lba + a) := by
    intro a ha
    have ha0 : a / 512 = 0 := by omega
    unfold Inode.byte
    rw [ha0, hblock, if_neg hdata, Nat.mod_eq_of_lt (by omega)]
  have hentry : ∀ off ≤ 32, Buf.Agree ((t.opened 0).entry t.disk off) ((putDirEntry
      (putDirEntry buf 0 [dotChar] 0 FT_DIRECTORY) 32 [dotChar, dotChar] 0 FT_DIRECTORY).from off)
      0 32 :=
    fun off hoff a _ ha => (hbyte _ (by omega)).trans (hdots _ (by omega) (by omega))
  -- an entry at `off` that agrees with one that was put there
  have hbinds : ∀ off ≤ 32, off % 32 = 0 → ∀ (b : Buf) (name : List Byte), ValidName name →
      Buf.Agree ((t.opened 0).entry t.disk off) ((putDirEntry b off name 0 FT_DIRECTORY).from off)
        0 32 →
      ({ t.loadInode 0 with root_dir_inode := t.next } : FS).BindsAt t.next off name 0 := by
    intro off hoff hal b name hname hagree
    have hlen := hname.length
    simp only [MAX_FILE_NAME_LEN] at hlen
    have hlt : off < (t.opened 0).i_size := Nat.lt_of_le_of_lt hoff (hsize ▸ by decide)
    refine ⟨hal, t.opened 0, hobj, hlt, ?_, ?_, ?_⟩
    · show entryType ((t.opened 0).entry t.disk off) ≠ FT_UNKNOWN
      rw [entryType_congr hagree, entryType_putDirEntry (by decide)]
      decide
    · show strcmpEq name ((t.opened 0).entry t.disk off) = true
      rw [strcmpEq_congr fun a h0 ha => hagree a h0 (by omega)]
      exact strcmpEq_putDirEntry hname.length
    · show entryNo ((t.opened 0).entry t.disk off) = 0
      rw [entryNo_congr hagree, entryNo_putDirEntry (by decide)]
  have hroot : ({ t.loadInode 0 with root_dir_inode := t.next } : FS).allocated 0 :=
    (hm.allocated_iff 0).2 rfl
  refine ⟨hreach, ⟨t.opened 0, hobj, htype, hsize⟩, ⟨0, hroot, ?_⟩, ⟨0, hroot, ?_⟩⟩
  · refine hbinds 0 (by decide) rfl buf _ validName_dot ?_
    refine (hentry 0 (by decide)).trans fun a _ ha => ?_
    exact @putDirEntry_agree _ 32 0 FT_DIRECTORY _ validName_dotdot 0 32 (.inl (by decide)) _ (by omega)
      (by omega)
  · exact hbinds 32 (by decide) rfl _ _ validName_dotdot (hentry 32 (by decide))

/-- The root directory after `a` was linked in it. -/
theorem directory_map_root : ∃ s0 s p dir_e, FreshDirectory s0 p ∧
    Run (DirCall.Step p) s0 [.link dir_e] s ∧
    ∀ off off' name no no', ValidName name → s.BindsAt p off name no → s.BindsAt p off' name no' →
      off = off' ∧ no = no' := by
  obtain ⟨s0, hs0⟩ := @filesysInit_run smallPartition (by decide) (by decide) Buf.zero
  have hfresh := freshDirectory_root hs0
  obtain ⟨bytes, hmap⟩ := hfresh.isMap
  obtain ⟨no, ha, -⟩ := hfresh.dot
  have hname : ValidName [97] := ⟨by decide, by decide, by decide⟩
  have hvalid : (⟨[97], no, FT_REGULAR⟩ : DirEntry).Valid :=
    ⟨hname, (by decide : FT_REGULAR ≠ FT_UNKNOWN), (by decide : FT_REGULAR < 2 ^ 32)⟩
  obtain ⟨b, s, m', bytes', hlink, -⟩ := hmap.dirLink hvalid ha
  have hstep : DirCall.Step s0.root_dir_inode s0 (.link ⟨[97], no, FT_REGULAR⟩) s := by
    refine ⟨⟨hvalid, ha⟩, ?_⟩
    show (dirLink s0.root_dir_inode _ >>= _) s0 = _
    rw [Prog.bind_of_ok hlink]
    rfl
  have hrun := Run.single hstep
  exact ⟨s0, s, _, _, hfresh, hrun, (directory_map hfresh hrun).2.1⟩

/-! ## Numbers that are no inode -/

section Unallocated

variable {s : FS} {p m no : Nat} {bytes : Buf}

/-- `inode_locate` refuses a number behind the table, and no open inode has it. -/
theorem IsDir.inodeOpen_panics (h : IsDir s p m bytes) (hno : MAX_FILES_PER_PART ≤ no) :
    RecoverOS.inodeOpen no s = .error .panic := by
  have hnone : s.findInode no = none := by
    cases hfind : s.findInode no with
    | none => rfl
    | some q =>
        obtain ⟨-, j, hq, hj⟩ := FS.findInode_some hfind
        have hlt := h.inv.no_lt hq
        simp only [MAX_FILES_PER_PART] at hno
        omega
  unfold RecoverOS.inodeOpen inodeLocate
  simp only [Prog.run_gets_bind, hnone, Prog.assert, if_neg (Nat.not_lt.2 hno)]
  rfl

/-- `dir_link` does not look at the number: in a directory with room it links any, and a look-up of the name
    panics afterwards when there is no such inode. -/
theorem IsMap.dirLink_unallocated (h : IsMap s p m bytes) {dir_e : DirEntry} (he : dir_e.Valid)
    (hno : MAX_FILES_PER_PART ≤ dir_e.i_no) (hlt : dir_e.i_no < 2 ^ 64)
    (hnone : findEntry (strcmpEq dir_e.filename) bytes m 0 = none) (hroom : 32 * m % 512 ≠ 0) :
    ∃ s', RecoverOS.dirLink p dir_e s = .ok (true, s') ∧ s'.Binds p dir_e.filename dir_e.i_no ∧
      RecoverOS.dirLookUp p dir_e.filename s' = .error .panic := by
  obtain ⟨k, r, s', hk, -, hrun, -, ⟨rfl, hdir⟩ | ⟨-, -, hfull, -⟩⟩ := h.dirLink_absent he.name hnone
  · have hbound : Bound (max m (k + 1)) (bytes.patch (32 * k) 32 dir_e.encode) dir_e.filename dir_e.i_no :=
      ⟨k, (bindsAt_link he hlt hk he.name _).2 (.inr ⟨rfl, rfl, rfl⟩)⟩
    refine ⟨s', hrun, (hdir.binds_iff he.name _).2 hbound, ?_⟩
    obtain ⟨l, hl, -, hcmp, hnum⟩ := hbound
    rw [hdir.dirLookUp (Nat.lt_trans he.name.length (by decide))]
    cases hfind : findEntry (strcmpEq dir_e.filename) (bytes.patch (32 * k) 32 dir_e.encode)
        (max m (k + 1)) 0 with
    | none =>
        have hnot := findEntry_none hfind hl
        rw [Nat.zero_add, hcmp] at hnot
        cases hnot
    | some o =>
        -- the entry that is found has the number of the one that was written
        obtain ⟨hcmp', l', hl', ho⟩ := findEntry_some hfind
        rw [Nat.zero_add] at ho
        rw [ho] at hcmp' ⊢
        have hlk : l' = k := by
          by_contra hne
          have hlen := he.name.length
          rw [strcmpEq_congr fun a h0 ha => agree_patch_other hne a h0
            (by simp only [MAX_FILE_NAME_LEN] at hlen; omega)] at hcmp'
          have hnot := findEntry_none hnone (by omega : l' < m)
          rw [Nat.zero_add, hcmp'] at hnot
          cases hnot
        have hnum' : entryNo ((bytes.patch (32 * k) 32 dir_e.encode).from (32 * l')) = dir_e.i_no := by
          rw [hlk, entryNo_congr (agree_patch_self dir_e.encode), DirEntry.entryNo_encode hlt]
        show (RecoverOS.inodeOpen (entryNo _) >>= _) s' = _
        rw [hnum']
        exact Prog.bind_of_error (hdir.inodeOpen_panics hno) _
  · exact absurd hfull hroom

/-- Only `.` and `..` are found. -/
theorem FreshDirectory.findEntry_none (h : FreshDirectory s p) (hdir : IsDir s p 2 bytes)
    {name : List Byte} (hname : ValidName name) (hdot : name ≠ [dotChar])
    (hdotdot : name ≠ [dotChar, dotChar]) : findEntry (strcmpEq name) bytes 2 0 = none := by
  obtain ⟨no, -, hb⟩ := h.dot
  obtain ⟨no', -, hb'⟩ := h.dotdot
  have hb := (hdir.bindsAt_iff validName_dot 0 no).1 hb
  have hb' := (hdir.bindsAt_iff validName_dotdot 1 no').1 hb'
  cases hfind : findEntry (strcmpEq name) bytes 2 0 with
  | none => rfl
  | some o =>
      obtain ⟨hcmp, k, hk, ho⟩ := findEntry_some hfind
      rw [ho, Nat.zero_add] at hcmp
      obtain rfl | rfl : k = 0 ∨ k = 1 := by omega
      · exact absurd (strcmpEq_inj hname.string validName_dot.string hcmp hb.2.2.1) hdot
      · exact absurd (strcmpEq_inj hname.string validName_dotdot.string hcmp hb'.2.2.1) hdotdot

end Unallocated

/-- The root directory after `a` was linked in it with a number behind the inode table. -/
theorem not_directory_map_5000 : ∃ s0 s p, FreshDirectory s0 p ∧
    (⟨[97], 5000, FT_REGULAR⟩ : DirEntry).Valid ∧
    dirLink p ⟨[97], 5000, FT_REGULAR⟩ s0 = .ok (true, s) ∧ s.Binds p [97] 5000 ∧
    dirLookUp p [97] s = .error .panic := by
  obtain ⟨s0, hs0⟩ := @filesysInit_run smallPartition (by decide) (by decide) Buf.zero
  have hfresh := freshDirectory_root hs0
  obtain ⟨bytes, hmap⟩ := hfresh.isMap
  have hvalid : (⟨[97], 5000, FT_REGULAR⟩ : DirEntry).Valid :=
    ⟨⟨by decide, by decide, by decide⟩, by decide, by decide⟩
  have hnone := hfresh.findEntry_none hmap.toIsDir hvalid.name (by decide) (by decide)
  obtain ⟨s, hlink, hbinds, hpanic⟩ := hmap.dirLink_unallocated hvalid (by decide) (by decide) hnone
    (by decide)
  exact ⟨s0, s, _, hfresh, hvalid, hlink, hbinds, hpanic⟩

end RecoverOS
