import RecoverOS.Fs.Proofs.Write

set_option autoImplicit false

/-! # Opening, closing, creating and deleting inodes

`inode_open`, `inode_close`, `inode_alloc` and `inode_free`: what each does to the state, and that each
keeps the invariant. -/

namespace RecoverOS

/-! ## `inode_open` -/

namespace FS

variable {s : FS} {no p : Nat}

theorem findInode_some (h : s.findInode no = some p) :
    p ∈ s.open_inodes ∧ ∃ i, s.inodes p = some i ∧ i.i_no = no := by
  refine ⟨List.mem_of_find?_eq_some h, ?_⟩
  have hp := List.find?_some h
  cases hi : s.inodes p with
  | none => simp [hi] at hp
  | some i =>
      simp only [hi, beq_iff_eq] at hp
      exact ⟨i, rfl, hp⟩

theorem findInode_none (ht : s.OpenTable) (h : s.findInode no = none) {q : Nat} {j : Inode}
    (hq : s.inodes q = some j) : j.i_no ≠ no := by
  intro hno
  have hmem := (ht.mem_iff q).2 ⟨j, hq⟩
  have hall := List.find?_eq_none.1 h q hmem
  simp [hq, hno] at hall

/-- The object of an open inode is found. -/
theorem findInode_of_object (ht : s.OpenTable) {i : Inode} (hp : s.inodes p = some i) :
    s.findInode i.i_no = some p := by
  cases h : s.findInode i.i_no with
  | none => exact absurd rfl (findInode_none ht h hp)
  | some q =>
      obtain ⟨-, j, hq, hno⟩ := findInode_some h
      rw [ht.one_object q p j i hq hp hno]

namespace OpenTable

variable {s' : FS} {p : Nat} {j : Inode}

/-- A new object for an inode that has none. -/
theorem add (h : s.OpenTable) (hfree : s.inodes p = none)
    (hnone : ∀ q i, s.inodes q = some i → i.i_no ≠ j.i_no)
    (hin : s'.inodes = Function.update s.inodes p (some j)) (hopen : s'.open_inodes = p :: s.open_inodes)
    (hp : p < s'.next) (hnext : s.next ≤ s'.next) (hroot : s'.root_dir_inode = s.root_dir_inode)
    (hcnt : 0 < j.i_open_cnts) : s'.OpenTable := by
  have hcases : ∀ q i, s'.inodes q = some i → (q = p ∧ i = j) ∨ s.inodes q = some i := by
    intro q i hq
    rw [hin] at hq
    by_cases hqp : q = p
    · rw [hqp, Function.update_self] at hq
      exact Or.inl ⟨hqp, (Option.some.inj hq).symm⟩
    · rw [Function.update_of_ne hqp] at hq
      exact Or.inr hq
  have hold : ∀ q i, s.inodes q = some i → s'.inodes q = some i := by
    intro q i hq
    have hqp : q ≠ p := by
      rintro rfl
      rw [hfree] at hq
      cases hq
    rw [hin, Function.update_of_ne hqp]
    exact hq
  constructor
  case nodup =>
    rw [hopen]
    refine List.nodup_cons.2 ⟨fun hmem => ?_, h.nodup⟩
    obtain ⟨i, hi⟩ := (h.mem_iff _).1 hmem
    rw [hfree] at hi
    cases hi
  case mem_iff =>
    intro q
    rw [hopen, List.mem_cons, h.mem_iff]
    constructor
    · rintro (rfl | ⟨i, hi⟩)
      · exact ⟨j, by rw [hin, Function.update_self]⟩
      · exact ⟨i, hold q i hi⟩
    · rintro ⟨i, hi⟩
      rcases hcases q i hi with ⟨rfl, -⟩ | hi
      · exact Or.inl rfl
      · exact Or.inr ⟨i, hi⟩
  case fresh =>
    intro q i hq
    rcases hcases q i hq with ⟨rfl, -⟩ | hq
    · exact hp
    · exact lt_of_lt_of_le (h.fresh _ _ hq) hnext
  case one_object =>
    intro q q' i i' hq hq' hno
    rcases hcases q i hq with ⟨rfl, rfl⟩ | hq <;> rcases hcases q' i' hq' with ⟨rfl, rfl⟩ | hq'
    · rfl
    · exact absurd hno.symm (hnone _ _ hq')
    · exact absurd hno (hnone _ _ hq)
    · exact h.one_object _ _ _ _ hq hq' hno
  case counted =>
    intro q i hq
    rcases hcases q i hq with ⟨-, rfl⟩ | hq
    · exact hcnt
    · exact h.counted _ _ hq
  case root =>
    obtain ⟨r, hr, hr0⟩ := h.root
    rw [hroot]
    exact ⟨r, hold _ _ hr, hr0⟩

/-- An object other than the root's is released. -/
theorem drop (h : s.OpenTable) (hp : p ≠ s.root_dir_inode)
    (hin : s'.inodes = Function.update s.inodes p none) (hopen : s'.open_inodes = s.open_inodes.erase p)
    (hnext : s'.next = s.next) (hroot : s'.root_dir_inode = s.root_dir_inode) : s'.OpenTable := by
  have hcases : ∀ q j, s'.inodes q = some j → q ≠ p ∧ s.inodes q = some j := by
    intro q j hq
    rw [hin] at hq
    by_cases hqp : q = p
    · subst hqp
      rw [Function.update_self] at hq
      cases hq
    · exact ⟨hqp, by rwa [Function.update_of_ne hqp] at hq⟩
  have hold : ∀ q j, q ≠ p → s.inodes q = some j → s'.inodes q = some j := by
    intro q j hqp hq
    rw [hin, Function.update_of_ne hqp]
    exact hq
  constructor
  case nodup =>
    rw [hopen]
    exact h.nodup.erase p
  case mem_iff =>
    intro q
    rw [hopen, h.nodup.mem_erase_iff, h.mem_iff]
    constructor
    · rintro ⟨hqp, j, hj⟩
      exact ⟨j, hold q j hqp hj⟩
    · rintro ⟨j, hj⟩
      exact ⟨(hcases q j hj).1, j, (hcases q j hj).2⟩
  case fresh =>
    intro q j hq
    rw [hnext]
    exact h.fresh q j (hcases q j hq).2
  case one_object =>
    intro q q' j j' hq hq' hno
    exact h.one_object _ _ _ _ (hcases q j hq).2 (hcases q' j' hq').2 hno
  case counted => exact fun q j hq => h.counted q j (hcases q j hq).2
  case root =>
    obtain ⟨r, hr, hr0⟩ := h.root
    rw [hroot]
    exact ⟨r, hold _ r (Ne.symm hp) hr, hr0⟩

end OpenTable

/-- The object `inode_open` makes of the record of inode `no`. -/
def opened (s : FS) (no : Nat) : Inode := { s.record no with i_open_cnts := 1 }

/-- The record of inode `no` in the two sectors that `inode_open` reads. -/
theorem decode_sectors (s : FS) (no : Nat) : Inode.decode ((Buf.zero.patch 0 (512 * 2)
    (s.disk.from (512 * (s.sb.inode_table_lba + 160 * no / 512)))).from (160 * no % 512))
    = s.record no := by
  refine Inode.decode_congr fun a _ ha => ?_
  have ha' : a < 0 + 160 := ha
  rw [Buf.from_apply, Buf.patch_start _ _ _ (by omega)]
  show s.disk _ = s.disk _
  congr 1
  unfold FS.recordAddr
  omega

/-- The state once inode `no` was read from the disk into a new object. -/
def loadInode (s : FS) (no : Nat) : FS :=
  { s with
    inodes := Function.update s.inodes s.next (some (s.opened no))
    open_inodes := s.next :: s.open_inodes
    next := s.next + 1
    live := s.live + 1 }

end FS

theorem inodeLocate_run {s : FS} {no : Nat} (hno : no < 4096) :
    inodeLocate no s = .ok (⟨s.sb.inode_table_lba + 160 * no / 512, 160 * no % 512⟩, s) := by
  unfold inodeLocate
  rw [Prog.run_assert_bind (c := no < MAX_FILES_PER_PART) hno]
  rfl

/-- An inode that is open gets one more reference. -/
theorem inodeOpen_found {s : FS} {no p : Nat} {i : Inode} (h : s.findInode no = some p)
    (hp : s.inodes p = some i) :
    inodeOpen no s = .ok (p, s.setObject p { i with i_open_cnts := i.i_open_cnts + 1 }) := by
  unfold inodeOpen
  simp only [Prog.run_gets_bind, h]
  rw [Prog.bind_of_ok (run_inodeAt hp)]
  rfl

/-- An inode that is not open is read from the inode table. -/
theorem inodeOpen_new {s : FS} {no : Nat} (h : s.findInode no = none) (hno : no < 4096) :
    inodeOpen no s = .ok (s.next, s.loadInode no) := by
  have hdec := s.decode_sectors no
  unfold inodeOpen
  simp only [Prog.run_gets_bind, h]
  rw [Prog.bind_of_ok (inodeLocate_run hno)]
  rw [Prog.bind_of_ok (a := s.next) (t := { s with next := s.next + 1, live := s.live + 1 }) rfl]
  rw [Prog.bind_of_ok (a := ()) (t := { s with next := s.next + 1, live := s.live + 1 + 1 }) rfl]
  rw [Prog.bind_of_ok (run_ideRead _ 0 Buf.zero Nat.two_pos _)]
  simp only [hdec]
  rfl

/-- The invariant with one object more, whose inode may be allocated with it. -/
theorem inv_add {s s' : FS} {j : Inode} (hinv : Inv s)
    (hnone : ∀ q i, s.inodes q = some i → i.i_no ≠ j.i_no) (hsb : s'.sb = s.sb)
    (hin : s'.inodes = Function.update s.inodes s.next (some j))
    (hopen : s'.open_inodes = s.next :: s.open_inodes) (hnext : s'.next = s.next + 1)
    (hroot : s'.root_dir_inode = s.root_dir_inode) (hblock : s'.block_bitmap = s.block_bitmap)
    (hilen : s'.inode_bitmap.bytes_len = s.inode_bitmap.bytes_len)
    (halloc : ∀ no, s.allocated no → s'.allocated no) (hj : s'.allocated j.i_no)
    (halloc' : ∀ no, no ≠ j.i_no → s'.allocated no → s.allocated no)
    (hcnt : 0 < j.i_open_cnts) (hfits : j.Fits) (hsync : j.Synced (s'.record j.i_no))
    (hsize : j.i_size ≤ MAX_FILE_SIZE)
    (hrec : ∀ no < 4096, no ≠ j.i_no → Buf.Agree s'.disk s.disk (s.recordAddr no) 160)
    (hind : ∀ no i, s.Copy no i → no ≠ j.i_no → i.i_sectors 12 ≠ 0 →
      Buf.Agree s'.disk s.disk (512 * i.i_sectors 12) 512)
    (hholds : ∀ k b, b ≠ 0 → j.slot s'.disk k = b → s.holds (j.i_no, k) b) : Inv s' := by
  have hfree : s.inodes s.next = none := hinv.table.next_none
  have hcases : ∀ q i, s'.inodes q = some i → (q = s.next ∧ i = j) ∨ s.inodes q = some i := by
    intro q i hq
    rw [hin] at hq
    by_cases hqn : q = s.next
    · rw [hqn, Function.update_self] at hq
      exact Or.inl ⟨hqn, (Option.some.inj hq).symm⟩
    · rw [Function.update_of_ne hqn] at hq
      exact Or.inr hq
  have hold : ∀ q i, s.inodes q = some i → s'.inodes q = some i := by
    intro q i hq
    have hqn : q ≠ s.next := by
      rintro rfl
      rw [hfree] at hq
      cases hq
    rw [hin, Function.update_of_ne hqn]
    exact hq
  have hnew : s'.inodes s.next = some j := by
    rw [hin, Function.update_self]
  have hrecord : ∀ no, no < 4096 → no ≠ j.i_no → s'.record no = s.record no := fun no h h' =>
    FS.record_congr hsb (hrec no h h')
  have hcopy : ∀ no i, s'.Copy no i →
      (no = j.i_no ∧ (i = j ∨ i = s'.record j.i_no)) ∨ (no ≠ j.i_no ∧ s.Copy no i) := by
    rintro no i ⟨ha, hi⟩
    by_cases hno : no = j.i_no
    · refine Or.inl ⟨hno, ?_⟩
      rcases hi with ⟨q, hq, hqno⟩ | hi
      · rcases hcases q i hq with ⟨-, rfl⟩ | hq
        · exact Or.inl rfl
        · exact absurd (hqno.trans hno) (hnone q i hq)
      · exact Or.inr (by rw [hi, hno])
    · refine Or.inr ⟨hno, halloc' no hno ha, ?_⟩
      rcases hi with ⟨q, hq, hqno⟩ | hi
      · rcases hcases q i hq with ⟨-, rfl⟩ | hq
        · exact absurd hqno.symm hno
        · exact Or.inl ⟨q, hq, hqno⟩
      · exact Or.inr (hi.trans (hrecord no ha.1 hno))
  constructor
  case geometry => exact hinv.geometry.congr hsb (by rw [hblock]) hilen
  case table =>
    exact hinv.table.add hfree hnone hin hopen (by omega) (by omega) hroot hcnt
  case open_allocated =>
    intro q i hq
    rcases hcases q i hq with ⟨-, rfl⟩ | hq
    · exact hj
    · exact halloc _ (hinv.open_allocated _ _ hq)
  case fits =>
    intro q i hq
    rcases hcases q i hq with ⟨-, rfl⟩ | hq
    · exact hfits
    · exact hinv.fits _ _ hq
  case synced =>
    intro q i hq
    rcases hcases q i hq with ⟨-, rfl⟩ | hq
    · exact hsync
    · rw [hrecord _ (hinv.no_lt hq) (hnone q i hq)]
      exact hinv.synced _ _ hq
  case recorded =>
    intro no ha
    by_cases hno : no = j.i_no
    · rw [hno]
      exact hsync.no
    · rw [hrecord no ha.1 hno]
      exact hinv.recorded no (halloc' no hno ha)
  case sized =>
    intro no i hc
    rcases hcopy no i hc with ⟨-, rfl | rfl⟩ | ⟨-, hc⟩
    · exact hsize
    · rw [hsync.size]
      exact hsize
    · exact hinv.sized _ _ hc
  case exclusive =>
    refine hinv.exclusive.mono ?_ fun b hb => (FS.used_congr hsb hblock b).2 hb
    rintro ⟨no, k⟩ b ⟨hb, i, hc, hk⟩
    rcases hcopy no i hc with ⟨hno, hi⟩ | ⟨hno, hc⟩
    · have hjk : j.slot s'.disk k = b := by
        rcases hi with rfl | rfl
        · exact hk
        · have hne : (s'.record j.i_no).slot s'.disk k ≠ 0 := fun h0 => hb (hk.symm.trans h0)
          exact (hsync.slot_eq hne).trans hk
      have hno' : no = j.i_no := hno
      rw [hno']
      exact hholds k b hb hjk
    · have hslot : i.slot s'.disk k = i.slot s.disk k :=
        Inode.slot_congr (fun _ _ => rfl) (hind no i hc hno) k
      exact ⟨hb, i, hc, hslot.symm.trans hk⟩

theorem inv_loadInode {s : FS} {no : Nat} (hinv : Inv s) (ha : s.allocated no)
    (h : s.findInode no = none) : Inv (s.loadInode no) := by
  have hno : (s.opened no).i_no = no := hinv.recorded no ha
  have hfits : (s.record no).Fits := Inode.decode_fits _
  have hsize : (s.record no).i_size ≤ MAX_FILE_SIZE := hinv.sized no _ ⟨ha, Or.inr rfl⟩
  refine inv_add (s := s) (j := s.opened no) hinv (fun q i hq => ?_) rfl rfl rfl rfl rfl rfl rfl
    (fun _ h => h) ?_ (fun _ _ h => h) Nat.one_pos ⟨hfits.no, hfits.size, hfits.type, hfits.sectors⟩
    ?_ hsize (fun _ _ _ _ _ _ => rfl) (fun _ _ _ _ _ _ _ _ => rfl) fun k b hb hk => ?_
  · rw [hno]
    exact FS.findInode_none hinv.table h hq
  · rw [hno]
    exact ha
  · rw [hno]
    exact ⟨rfl, rfl, rfl, fun _ _ => rfl, Or.inl rfl⟩
  · rw [hno]
    have hslot : (s.opened no).slot s.disk k = (s.record no).slot s.disk k := Inode.slot_openCnts 1 k
    exact ⟨hb, s.record no, ⟨ha, Or.inr rfl⟩, hslot.symm.trans hk⟩

/-! ## Changing the open count -/

section OpenCount

variable {s : FS} {p n : Nat} {i : Inode}

theorem changesInode_openCount (hp : s.inodes p = some i) (n : Nat) :
    ChangesInode s (s.setObject p { i with i_open_cnts := n }) p i { i with i_open_cnts := n } where
  object := hp
  no := rfl
  sb := rfl
  inode_bitmap := rfl
  inodes := rfl
  open_inodes := rfl
  next := rfl
  root := rfl
  records _ _ _ _ _ _ := rfl
  indirect _ _ _ _ _ _ _ _ := rfl

theorem inv_openCount (hinv : Inv s) (hp : s.inodes p = some i) (hn : 0 < n) :
    Inv (s.setObject p { i with i_open_cnts := n }) := by
  have hch := changesInode_openCount hp n
  have hfits := hinv.fits p i hp
  have hold := hinv.synced p i hp
  have hsize := hinv.sized _ _ (hinv.copy hp)
  have hsync : ({ i with i_open_cnts := n } : Inode).Synced
      ((s.setObject p { i with i_open_cnts := n }).record i.i_no) :=
    ⟨hold.no, hold.size, hold.type, hold.direct, hold.indirect⟩
  refine hch.inv hinv rfl hn ⟨hfits.no, hfits.size, hfits.type, hfits.sectors⟩ hsync hsize ?_
  refine hinv.exclusive.mono (fun a b hab => ?_) fun _ hb => hb
  rcases hch.holds_cases hinv.table hsync hab with h | ⟨hno, hb, hslot⟩
  · exact h
  · have hsame : ({ i with i_open_cnts := n } : Inode).slot s.disk a.2 = i.slot s.disk a.2 :=
      Inode.slot_openCnts n a.2
    exact ⟨hb, i, by rw [hno]; exact hinv.copy hp, hsame.symm.trans hslot⟩

end OpenCount

/-- Opening an allocated inode returns its object, with one reference more. -/
theorem inodeOpen_cases {s : FS} {no : Nat} (ha : s.allocated no) :
    (∃ p i, s.inodes p = some i ∧ i.i_no = no ∧ inodeOpen no s
        = .ok (p, s.setObject p { i with i_open_cnts := i.i_open_cnts + 1 })) ∨
    (s.findInode no = none ∧ inodeOpen no s = .ok (s.next, s.loadInode no)) := by
  cases h : s.findInode no with
  | none => exact Or.inr ⟨rfl, inodeOpen_new h ha.1⟩
  | some p =>
      obtain ⟨-, i, hp, hno⟩ := FS.findInode_some h
      exact Or.inl ⟨p, i, hp, hno, inodeOpen_found h hp⟩

theorem inv_inodeOpen {s s' : FS} {no p : Nat} (hinv : Inv s) (ha : s.allocated no)
    (h : inodeOpen no s = .ok (p, s')) : Inv s' := by
  rcases inodeOpen_cases ha with ⟨q, i, hq, -, hrun⟩ | ⟨hnone, hrun⟩
  · rw [hrun] at h
    cases h
    exact inv_openCount hinv hq (Nat.succ_pos _)
  · rw [hrun] at h
    cases h
    exact inv_loadInode hinv ha hnone

/-! ## `inode_close` -/

namespace FS

/-- The state once the object at `p` is released. -/
def dropInode (s : FS) (p : Nat) : FS :=
  { s with
    open_inodes := s.open_inodes.erase p
    inodes := Function.update s.inodes p none
    live := s.live - 1 }

end FS

section Close

variable {s s' : FS} {p : Nat} {i : Inode}

theorem inodeClose_root (h : p = s.root_dir_inode) : inodeClose p s = .ok ((), s) := by
  unfold inodeClose
  rw [Prog.bind_of_ok (a := s) (t := s) rfl, if_pos h]
  rfl

theorem inodeClose_last (h : p ≠ s.root_dir_inode) (hp : s.inodes p = some i)
    (hcnt : i.i_open_cnts = 1) : inodeClose p s = .ok ((), s.dropInode p) := by
  unfold inodeClose
  rw [Prog.bind_of_ok (a := s) (t := s) rfl, if_neg h, Prog.bind_of_ok (run_inodeAt hp), if_pos hcnt]
  rfl

theorem inodeClose_more (h : p ≠ s.root_dir_inode) (hp : s.inodes p = some i)
    (hcnt : i.i_open_cnts ≠ 1) :
    inodeClose p s = .ok ((), s.setObject p { i with i_open_cnts := i.i_open_cnts - 1 }) := by
  unfold inodeClose
  rw [Prog.bind_of_ok (a := s) (t := s) rfl, if_neg h, Prog.bind_of_ok (run_inodeAt hp), if_neg hcnt]
  rfl

/-- Without one object no copy is new. -/
theorem copy_drop (hsb : s'.sb = s.sb) (hinodes : s'.inodes = Function.update s.inodes p none)
    (halloc : ∀ no, s'.allocated no → s.allocated no)
    (hrec : ∀ no < 4096, Buf.Agree s'.disk s.disk (s.recordAddr no) 160) {no : Nat} {j : Inode}
    (hc : s'.Copy no j) : s.Copy no j := by
  refine ⟨halloc no hc.1, ?_⟩
  rcases hc.2 with ⟨q, hq, hno⟩ | hj
  · rw [hinodes] at hq
    by_cases hqp : q = p
    · subst hqp
      rw [Function.update_self] at hq
      cases hq
    · rw [Function.update_of_ne hqp] at hq
      exact Or.inl ⟨q, hq, hno⟩
  · exact Or.inr (hj.trans (FS.record_congr hsb (hrec no hc.1.1)))

/-- The invariant without one object, whose inode may be deallocated with it. -/
theorem inv_drop (hinv : Inv s) (hp : s.inodes p = some i) (hroot : p ≠ s.root_dir_inode)
    (hsb : s'.sb = s.sb) (hopen : s'.open_inodes = s.open_inodes.erase p)
    (hinodes : s'.inodes = Function.update s.inodes p none) (hnext : s'.next = s.next)
    (hrootp : s'.root_dir_inode = s.root_dir_inode)
    (hilen : s'.inode_bitmap.bytes_len = s.inode_bitmap.bytes_len)
    (halloc : ∀ no, s'.allocated no → s.allocated no)
    (halloc' : ∀ no, no ≠ i.i_no → s.allocated no → s'.allocated no)
    (hblen : s'.block_bitmap.bytes_len = s.block_bitmap.bytes_len)
    (hrec : ∀ no < 4096, Buf.Agree s'.disk s.disk (s.recordAddr no) 160)
    (hslot : ∀ no j, s.Copy no j → s'.allocated no → ∀ k, j.slot s'.disk k = j.slot s.disk k)
    (hused : ∀ no j k, s.Copy no j → s'.allocated no → j.slot s.disk k ≠ 0 →
      s'.used (j.slot s.disk k)) : Inv s' := by
  have hcases : ∀ q j, s'.inodes q = some j → q ≠ p ∧ s.inodes q = some j := by
    intro q j hq
    rw [hinodes] at hq
    by_cases hqp : q = p
    · subst hqp
      rw [Function.update_self] at hq
      cases hq
    · exact ⟨hqp, by rwa [Function.update_of_ne hqp] at hq⟩
  have hold : ∀ q j, q ≠ p → s.inodes q = some j → s'.inodes q = some j := by
    intro q j hqp hq
    rw [hinodes, Function.update_of_ne hqp]
    exact hq
  have hrecord : ∀ no, no < 4096 → s'.record no = s.record no := fun no hno =>
    FS.record_congr hsb (hrec no hno)
  have hcopy : ∀ no j, s'.Copy no j → s.Copy no j := fun _ _ hc =>
    copy_drop hsb hinodes halloc hrec hc
  constructor
  case geometry => exact hinv.geometry.congr hsb hblen hilen
  case table => exact hinv.table.drop hroot hinodes hopen hnext hrootp
  case open_allocated =>
    intro q j hq
    obtain ⟨hqp, hq⟩ := hcases q j hq
    refine halloc' _ (fun hno => ?_) (hinv.open_allocated q j hq)
    exact hqp (hinv.table.one_object q p j i hq hp hno)
  case fits => exact fun q j hq => hinv.fits q j (hcases q j hq).2
  case synced =>
    intro q j hq
    have hq' := (hcases q j hq).2
    rw [hrecord _ (hinv.no_lt hq')]
    exact hinv.synced q j hq'
  case recorded =>
    intro no ha
    rw [hrecord no ha.1]
    exact hinv.recorded no (halloc no ha)
  case sized => exact fun no j hc => hinv.sized no j (hcopy no j hc)
  case exclusive =>
    have hholds : ∀ a b, s'.holds a b → s.holds a b := by
      rintro a b ⟨hb, j, hc, hk⟩
      refine ⟨hb, j, hcopy _ _ hc, ?_⟩
      rw [← hslot _ _ (hcopy _ _ hc) hc.1, hk]
    refine hinv.exclusive.release hholds ?_
    rintro a b ⟨hb, j, hc, hk⟩ -
    rw [hslot _ _ (hcopy _ _ hc) hc.1] at hk
    have hu := hused a.1 j a.2 (hcopy _ _ hc) hc.1 (by rwa [hk])
    rwa [hk] at hu

theorem inv_dropInode (hinv : Inv s) (hp : s.inodes p = some i) (hroot : p ≠ s.root_dir_inode) :
    Inv (s.dropInode p) :=
  inv_drop hinv hp hroot rfl rfl rfl rfl rfl rfl (fun _ h => h) (fun _ _ h => h) rfl
    (fun _ _ _ _ _ => rfl) (fun _ _ _ _ _ => rfl)
    fun _ _ _ hc _ hk => hinv.used_slot hc hk

theorem inv_inodeClose (hinv : Inv s) (h : inodeClose p s = .ok ((), s')) : Inv s' := by
  by_cases hroot : p = s.root_dir_inode
  · rw [inodeClose_root hroot] at h
    cases h
    exact hinv
  · cases hp : s.inodes p with
    | none =>
        unfold inodeClose at h
        rw [Prog.bind_of_ok (a := s) (t := s) rfl, if_neg hroot] at h
        simp [hp] at h
    | some i =>
        by_cases hcnt : i.i_open_cnts = 1
        · rw [inodeClose_last hroot hp hcnt] at h
          cases h
          exact inv_dropInode hinv hp hroot
        · rw [inodeClose_more hroot hp hcnt] at h
          cases h
          have hpos := hinv.table.counted p i hp
          exact inv_openCount hinv hp (by omega)

end Close

/-! ## `inode_alloc` -/

/-- The inode that `inode_init` makes. -/
def newInode (no file_type : Nat) : Inode :=
  { i_no := no, i_size := 0, i_open_cnts := 1, f_type := file_type, i_sectors := fun _ => 0 }

namespace FS

/-- The state once bit `k` of the inode bitmap is set and its sector written. -/
def takeInode (s : FS) (k : Nat) : FS :=
  let btmp := bitmapSet s.inode_bitmap k true
  { s with
    inode_bitmap := btmp
    disk := s.disk.patch (512 * (s.sb.inode_bitmap_lba + k / 4096)) 512
      (btmp.bits.from (512 * (k / 4096))) }

/-- The state with the object of the new inode `k`. -/
def addInode (s : FS) (k file_type : Nat) : FS :=
  { s.takeInode k with
    inodes := Function.update s.inodes s.next (some (newInode k file_type))
    open_inodes := s.next :: s.open_inodes
    next := s.next + 1
    live := s.live + 1 }

/-- The state once inode `k` is created. -/
def createInode (s : FS) (k file_type : Nat) : FS :=
  (s.addInode k file_type).storeRecord (newInode k file_type)

end FS

section Create

variable {s s' : FS} {k file_type : Nat} {btmp : Bitmap}

theorem inodeAlloc_none (h : bitmapAllocABit s.inode_bitmap = none) :
    inodeAlloc file_type s = .ok (none, s) := by
  unfold inodeAlloc
  rw [Prog.bind_of_ok (a := s) (t := s) rfl, h]
  rfl

theorem inode_bitmap_size (g : Geometry s) : s.inode_bitmap.size = 4096 := by
  rw [Bitmap.size, g.inode_len]

theorem inodeAlloc_some (g : Geometry s) (h : bitmapAllocABit s.inode_bitmap = some (k, btmp)) :
    inodeAlloc file_type s = .ok (some s.next, s.createInode k file_type) := by
  obtain ⟨hk, -, rfl, -⟩ := bitmapAllocABit_eq_some h
  rw [inode_bitmap_size g] at hk
  have hobj : (s.addInode k file_type).inodes s.next = some (newInode k file_type) := by
    unfold FS.addInode
    exact Function.update_self s.next _ s.inodes
  have hsync : inodeSync s.next (s.addInode k file_type) = .ok ((), s.createInode k file_type) :=
    inodeSync_run hobj hk
  unfold inodeAlloc
  rw [Prog.bind_of_ok (a := s) (t := s) rfl, h]
  simp only [Prog.run_modify_bind]
  rw [Prog.bind_of_ok (a := ()) (t := s.takeInode k) (run_ideWrite _ _ Nat.one_pos _),
    Prog.bind_of_ok (a := s.next) (t := { s.takeInode k with next := s.next + 1, live := s.live + 1 })
      rfl,
    Prog.bind_of_ok (a := ()) (t := { s.takeInode k with
      inodes := Function.update s.inodes s.next (some (newInode k file_type))
      next := s.next + 1
      live := s.live + 1 }) rfl]
  simp only [Prog.run_modify_bind]
  exact Prog.bind_of_ok hsync _

theorem allocated_createInode (g : Geometry s) (hk : k < s.inode_bitmap.size) {no : Nat} :
    (s.createInode k file_type).allocated no ↔ s.allocated no ∨ no = k := by
  rw [inode_bitmap_size g] at hk
  have hbm : (s.createInode k file_type).inode_bitmap = bitmapSet s.inode_bitmap k true := rfl
  unfold FS.allocated
  rw [hbm, bitmapRead_bitmapSet]
  by_cases hno : no = k
  · simp [hno, hk]
  · simp [hno]

/-- Creating an inode writes to the inode bitmap's sector and to the record. -/
theorem createInode_disk (g : Geometry s) (hk : k < s.inode_bitmap.size) {a : Nat}
    (ha : a < 512 * s.sb.inode_bitmap_lba ∨ 512 * s.sb.inode_table_lba ≤ a)
    (hrec : a < s.recordAddr k ∨ s.recordAddr k + 160 ≤ a) :
    (s.createInode k file_type).disk a = s.disk a := by
  rw [inode_bitmap_size g] at hk
  have htable := g.table_lba
  have hdisk : (s.createInode k file_type).disk = (s.takeInode k).disk.patch (s.recordAddr k) 160
      (newInode k file_type).encode := rfl
  have htake : (s.takeInode k).disk = s.disk.patch (512 * (s.sb.inode_bitmap_lba + k / 4096)) 512
      ((bitmapSet s.inode_bitmap k true).bits.from (512 * (k / 4096))) := rfl
  rw [hdisk, Buf.patch_outside _ _ hrec, htake]
  exact Buf.patch_outside _ _ (by omega)

theorem newInode_slot (disk : Buf) (j : Nat) : (newInode k file_type).slot disk j = 0 := by
  have hz : ∀ m, (newInode k file_type).i_sectors m = 0 := fun _ => rfl
  by_cases hj : j < 140
  · rw [Inode.slot_block hj]
    by_cases hj12 : j < 12
    · rw [Inode.blocks_direct hj12, hz]
    · exact Inode.blocks_no_indirect (hz 12) (by omega)
  · by_cases h140 : j = 140
    · rw [h140, Inode.slot_indirect, hz]
    · exact Inode.slot_beyond (by omega)

theorem inv_createInode (hinv : Inv s) (h : bitmapAllocABit s.inode_bitmap = some (k, btmp))
    (hft : file_type < 2 ^ 32) : Inv (s.createInode k file_type) := by
  obtain ⟨hk, hclear, -, -⟩ := bitmapAllocABit_eq_some h
  have hsize := inode_bitmap_size hinv.geometry
  have hnot : ¬ s.allocated k := by
    rintro ⟨-, hset⟩
    rw [hclear] at hset
    cases hset
  have hfits : (newInode k file_type).Fits := by
    refine ⟨?_, Nat.two_pow_pos 64, hft, fun _ _ => Nat.two_pow_pos 32⟩
    show k < 2 ^ 64
    omega
  have halloc := @allocated_createInode s k file_type hinv.geometry hk
  refine inv_add (s := s) (j := newInode k file_type) hinv (fun q i hq => ?_) rfl rfl rfl rfl rfl
    rfl rfl (fun no ha => halloc.2 (Or.inl ha)) (halloc.2 (Or.inr rfl)) (fun no hne ha => ?_)
    Nat.one_pos hfits (FS.synced_storeRecord hfits) (Nat.zero_le _) (fun no hno hne a h1 h2 => ?_)
    (fun no i hc hne h12 a h1 h2 => ?_) fun j b hb hj => ?_
  · intro hno
    have ha := hinv.open_allocated q i hq
    rw [hno] at ha
    exact hnot ha
  · rcases halloc.1 ha with ha | ha
    · exact ha
    · exact absurd ha hne
  · have hapart := FS.recordAddr_apart (s := s) hne
    have hge : 512 * s.sb.inode_table_lba ≤ s.recordAddr no := Nat.le_add_right _ _
    have hapart' : s.recordAddr no + 160 ≤ s.recordAddr k ∨ s.recordAddr k + 160 ≤ s.recordAddr no :=
      hapart
    exact createInode_disk hinv.geometry hk (by omega) (by omega)
  · have habove := FS.used_above hinv.geometry (hinv.used_indirect hc h12) (by omega : k < 4096)
    have hdata := (hinv.used_indirect hc h12).1
    have hge := hinv.geometry.data_lba
    exact createInode_disk hinv.geometry hk (by omega) (by omega)
  · rw [newInode_slot] at hj
    exact absurd hj.symm hb

theorem inv_inodeAlloc {r : Option Nat} (hinv : Inv s) (hft : file_type < 2 ^ 32)
    (h : inodeAlloc file_type s = .ok (r, s')) : Inv s' := by
  cases hb : bitmapAllocABit s.inode_bitmap with
  | none =>
      rw [inodeAlloc_none hb] at h
      cases h
      exact hinv
  | some res =>
      obtain ⟨k, btmp⟩ := res
      rw [inodeAlloc_some hinv.geometry hb] at h
      cases h
      exact inv_createInode hinv hb hft

end Create

/-! ## `inode_free` -/

/-- From `s` to `s'` the blocks that entries `lo ≤ k < hi` of the array name were given back. -/
structure Freed (all : Nat → Nat) (lo hi : Nat) (s s' : FS) : Prop where
  frame : s' = { s with disk := s'.disk, block_bitmap := s'.block_bitmap }
  len : s'.block_bitmap.bytes_len = s.block_bitmap.bytes_len
  used : ∀ b, s'.used b ↔ s.used b ∧ ∀ k, lo ≤ k → k < hi → all k ≠ 0 → b ≠ all k
  disk : ∀ a, 512 * s.sb.inode_bitmap_lba ≤ a →
    (∀ k, lo ≤ k → k < hi → all k ≠ 0 → a < 512 * all k ∨ 512 * all k + 512 ≤ a) →
    s'.disk a = s.disk a

namespace Freed

variable {all : Nat → Nat} {lo mid hi : Nat} {s s1 s2 : FS}

theorem nil (h : hi ≤ lo) : Freed all lo hi s s where
  frame := rfl
  len := rfl
  used b := ⟨fun hb => ⟨hb, fun k h1 h2 => absurd h2 (by omega)⟩, fun hb => hb.1⟩
  disk _ _ _ := rfl

theorem one (g : Geometry s) (hb : s.used (all lo)) :
    Freed all lo (lo + 1) s (s.giveBlock (all lo)) where
  frame := rfl
  len := rfl
  used b := by
    rw [FS.used_giveBlock hb]
    constructor
    · rintro ⟨hu, hne⟩
      refine ⟨hu, fun k h1 h2 _ => ?_⟩
      rwa [show k = lo by omega]
    · rintro ⟨hu, hne⟩
      exact ⟨hu, hne lo (Nat.le_refl _) (Nat.lt_succ_self _) (FS.used_ne_zero g hb)⟩
  disk a ha hout :=
    FS.giveBlock_disk g hb ha
      (hout lo (Nat.le_refl _) (Nat.lt_succ_self _) (FS.used_ne_zero g hb))

theorem trans (h1 : Freed all lo mid s s1) (h2 : Freed all mid hi s1 s2) (hlo : lo ≤ mid)
    (hhi : mid ≤ hi) : Freed all lo hi s s2 where
  frame := by rw [h2.frame, h1.frame]
  len := h2.len.trans h1.len
  used b := by
    rw [h2.used, h1.used]
    constructor
    · rintro ⟨⟨hb, h1⟩, h2⟩
      refine ⟨hb, fun k hk1 hk2 => ?_⟩
      by_cases hk : k < mid
      · exact h1 k hk1 hk
      · exact h2 k (by omega) hk2
    · rintro ⟨hb, h⟩
      exact ⟨⟨hb, fun k hk1 hk2 => h k hk1 (by omega)⟩, fun k hk1 hk2 => h k (by omega) hk2⟩
  disk a ha hout := by
    have hsb : s1.sb = s.sb := by rw [h1.frame]
    rw [h2.disk a (by rwa [hsb]) fun k hk1 hk2 => hout k (by omega) hk2]
    exact h1.disk a ha fun k hk1 hk2 => hout k hk1 (by omega)

end Freed

/-- The loop gives back every block the array names: each is used when its turn comes, because no
    block is named twice. -/
theorem freeLoop_run (all : Nat → Nat) (n idx : Nat) {s : FS} (g : Geometry s)
    (hused : ∀ k, idx ≤ k → all k ≠ 0 → s.used (all k))
    (hinj : ∀ k k', all k ≠ 0 → all k = all k' → k = k') :
    ∃ s', freeLoop all n idx s = .ok ((), s') ∧ Freed all idx (idx + n) s s' := by
  induction n generalizing idx s with
  | zero => exact ⟨s, rfl, Freed.nil (Nat.le_refl _)⟩
  | succ n ih =>
      have hshift : idx + (n + 1) = idx + 1 + n := by omega
      by_cases h0 : all idx ≠ 0
      · have hb := hused idx (Nat.le_refl _) h0
        have hone := Freed.one g hb
        obtain ⟨s', hrun, hfreed⟩ := ih (idx + 1) (FS.giveBlock_geometry g) fun k hk hne =>
          (FS.used_giveBlock hb).2 ⟨hused k (by omega) hne, fun heq => by
            have := hinj k idx hne heq
            omega⟩
        refine ⟨s', ?_, ?_⟩
        · rw [freeLoop, if_pos h0, Prog.bind_of_ok (blockBitmapFree_of_used g hb)]
          exact hrun
        · rw [hshift]
          exact hone.trans hfreed (Nat.le_succ _) (by omega)
      · obtain ⟨s', hrun, hfreed⟩ := ih (idx + 1) g fun k hk => hused k (by omega)
        refine ⟨s', ?_, ?_⟩
        · rw [freeLoop, if_neg h0]
          exact hrun
        · rw [hshift]
          have hnone : Freed all idx (idx + 1) s s :=
            { frame := rfl
              len := rfl
              used := fun b => ⟨fun hb => ⟨hb, fun k h1 h2 hne => by
                rw [show k = idx by omega] at hne
                exact absurd hne h0⟩, fun hb => hb.1⟩
              disk := fun _ _ _ => rfl }
          exact hnone.trans hfreed (Nat.le_succ _) (by omega)

section Free

variable {s s' : FS} {p : Nat} {i : Inode}

/-- `inode_free` up to the check of the open count. -/
theorem inodeFree_eq (hinv : Inv s) (hp : s.inodes p = some i) :
    ∃ s2, Freed (i.blocks s.disk) 0 140
        { s with inode_bitmap := bitmapSet s.inode_bitmap i.i_no false } s2 ∧
      inodeFree p s = (do
        Prog.assert (i.i_open_cnts = 1)
        inodeClose p : Prog FS Unit) s2 := by
  have hno := hinv.no_lt hp
  have hown := hinv.owned (hinv.copy hp)
  let s1 : FS := { s with inode_bitmap := bitmapSet s.inode_bitmap i.i_no false }
  have hg1 : Geometry s1 := hinv.geometry.congr rfl rfl rfl
  obtain ⟨s2, hloop, hfreed⟩ := freeLoop_run (i.blocks s.disk) 140 0 (s := s1) hg1
    (fun k _ hk => (FS.used_congr rfl rfl _).2 (hown.used k hk)) hown.inj
  have hin : i.i_no < s.inode_bitmap.size := by
    rw [inode_bitmap_size hinv.geometry]
    exact hno
  refine ⟨s2, hfreed, ?_⟩
  unfold inodeFree
  rw [Prog.bind_of_ok (run_inodeAt hp), Prog.bind_of_ok (a := s) (t := s) rfl,
    Prog.run_require_bind hin, Prog.bind_of_ok (a := ()) (t := s1) rfl,
    Prog.bind_of_ok (run_getBlocksLba i s1)]
  exact Prog.bind_of_ok hloop _

/-- Deleting an inode that nothing else has open gives back its blocks and drops its object. -/
theorem inodeFree_freed (hinv : Inv s) (hp : s.inodes p = some i) (hroot : p ≠ s.root_dir_inode)
    (hcnt : i.i_open_cnts = 1) :
    ∃ s2, Freed (i.blocks s.disk) 0 140
        { s with inode_bitmap := bitmapSet s.inode_bitmap i.i_no false } s2 ∧
      inodeFree p s = .ok ((), s2.dropInode p) := by
  obtain ⟨s2, hfreed, hrun⟩ := inodeFree_eq hinv hp
  have hp2 : s2.inodes p = some i := by rw [hfreed.frame]; exact hp
  have hroot2 : p ≠ s2.root_dir_inode := by rw [hfreed.frame]; exact hroot
  refine ⟨s2, hfreed, ?_⟩
  rw [hrun, Prog.run_assert_bind hcnt]
  exact inodeClose_last hroot2 hp2 hcnt

/-- An inode with another reference is not freed. -/
theorem inodeFree_shared (hinv : Inv s) (hp : s.inodes p = some i) (hcnt : i.i_open_cnts ≠ 1) :
    inodeFree p s = .error .panic := by
  obtain ⟨s2, -, hrun⟩ := inodeFree_eq hinv hp
  rw [hrun, Prog.run_assert_bind_not hcnt]

/-- Its number is free again, and so is every block that one of its file blocks names. -/
theorem inodeFree_run (hinv : Inv s) (hp : s.inodes p = some i) (hroot : p ≠ s.root_dir_inode)
    (hcnt : i.i_open_cnts = 1) :
    ∃ s', inodeFree p s = .ok ((), s') ∧ Inv s' ∧
      s'.inode_bitmap = bitmapSet s.inode_bitmap i.i_no false ∧
      s'.block_bitmap.bytes_len = s.block_bitmap.bytes_len ∧ s'.sb = s.sb ∧
      (∀ b, s'.used b ↔ s.used b ∧ ∀ k, i.blocks s.disk k ≠ 0 → b ≠ i.blocks s.disk k) ∧
      ∀ no j, s'.Copy no j → s.Copy no j ∧ ∀ k, j.slot s'.disk k = j.slot s.disk k := by
  have hc := hinv.copy hp
  have hown := hinv.owned hc
  have hno := hinv.no_lt hp
  obtain ⟨s2, hfreed, hrun⟩ := inodeFree_freed hinv hp hroot hcnt
  have hibm2 : s2.inode_bitmap = bitmapSet s.inode_bitmap i.i_no false := by rw [hfreed.frame]
  have hused2 : ∀ b, s2.used b ↔ s.used b ∧ ∀ k, i.blocks s.disk k ≠ 0 → b ≠ i.blocks s.disk k := by
    intro b
    rw [hfreed.used, FS.used_congr (s := s) rfl rfl b]
    constructor
    · rintro ⟨hb, h⟩
      refine ⟨hb, fun k hk => ?_⟩
      have hlt : k < 140 := by
        by_contra hge
        exact hk (Inode.blocks_beyond (by omega))
      exact h k (Nat.zero_le _) (by omega) hk
    · rintro ⟨hb, h⟩
      exact ⟨hb, fun k _ _ => h k⟩
  have hbelow : ∀ a, 512 * s.sb.inode_bitmap_lba ≤ a →
      (∀ k, i.blocks s.disk k ≠ 0 → a < 512 * i.blocks s.disk k ∨ 512 * i.blocks s.disk k + 512 ≤ a) →
      s2.disk a = s.disk a :=
    fun a ha hout => hfreed.disk a ha fun k _ _ => hout k
  have halloc : ∀ no, s2.allocated no ↔ s.allocated no ∧ no ≠ i.i_no := by
    intro no
    unfold FS.allocated
    rw [hibm2, bitmapRead_bitmapSet]
    by_cases hne : no = i.i_no
    · simp [hne]
    · simp [hne]
  -- the copies that remain are those of other inodes, which name other blocks
  have hother : ∀ no j k m, s.Copy no j → no ≠ i.i_no → j.slot s.disk k ≠ 0 →
      j.slot s.disk k ≠ i.blocks s.disk m := by
    intro no j k m hj hne hk heq
    have hm : m < 140 := by
      by_contra hge
      rw [heq] at hk
      exact hk (Inode.blocks_beyond (by omega))
    rw [← Inode.slot_block hm] at heq
    exact hne (hinv.slot_inj hj hc hk heq).1
  have hsb : (s2.dropInode p).sb = s.sb := by rw [hfreed.frame]; rfl
  have hinodes : (s2.dropInode p).inodes = Function.update s.inodes p none := by
    rw [hfreed.frame]
    rfl
  have hrec : ∀ no < 4096, Buf.Agree (s2.dropInode p).disk s.disk (s.recordAddr no) 160 := by
    intro no hno' a h1 h2
    have hge := FS.recordAddr_ge hinv.geometry no
    refine hbelow a (by omega) fun k hk => Or.inl ?_
    have habove := FS.used_above hinv.geometry (hown.used k hk) hno'
    omega
  have hslot : ∀ no j, s.Copy no j → (s2.dropInode p).allocated no → ∀ k,
      j.slot (s2.dropInode p).disk k = j.slot s.disk k := by
    intro no j hj ha k
    refine Inode.slot_congr (fun _ _ => rfl) (fun h12 a h1 h2 => ?_) k
    have hdata := (hinv.used_indirect hj h12).1
    have hge := hinv.geometry.data_lba
    have hge' := hinv.geometry.table_lba
    refine hbelow a (by omega) fun m hm => sector_apart ?_ h1 h2
    have h := hother no j 140 m hj ((halloc no).1 ha).2
    rw [Inode.slot_indirect] at h
    exact h h12
  have halloc1 : ∀ no, (s2.dropInode p).allocated no → s.allocated no := fun no ha =>
    ((halloc no).1 ha).1
  refine ⟨s2.dropInode p, hrun, ?_, hibm2, hfreed.len, hsb, fun b =>
    (FS.used_congr rfl rfl b).trans (hused2 b), fun no j hj => ?_⟩
  · refine inv_drop hinv hp hroot hsb (by rw [hfreed.frame]; rfl) hinodes
      (by rw [hfreed.frame]; rfl) (by rw [hfreed.frame]; rfl) ?_ halloc1
      (fun no hne ha => (halloc no).2 ⟨ha, hne⟩) hfreed.len hrec hslot fun no j k hj ha hk => ?_
    · show s2.inode_bitmap.bytes_len = _
      rw [hibm2]
      rfl
    · exact (hused2 _).2
        ⟨hinv.used_slot hj hk, fun m _ => hother no j k m hj ((halloc no).1 ha).2 hk⟩
  · have hj' := copy_drop hsb hinodes halloc1 hrec hj
    exact ⟨hj', hslot no j hj' hj.1⟩

theorem inv_inodeFree (hinv : Inv s) (hp : s.inodes p = some i) (hroot : p ≠ s.root_dir_inode)
    (hcnt : i.i_open_cnts = 1) (h : inodeFree p s = .ok ((), s')) : Inv s' := by
  obtain ⟨t, hrun, hinv', -⟩ := inodeFree_run hinv hp hroot hcnt
  rw [hrun] at h
  cases h
  exact hinv'

end Free

end RecoverOS
