import RecoverOS.Base.Run
import RecoverOS.Fs.Format
import RecoverOS.Fs.Proofs.Lifecycle

set_option autoImplicit false

/-! # Threads that open and close inodes

`inode_open` and `inode_close` called by any number of threads. A thread is switched out only in the
`ide_read` of `inode_open`, between its search of `open_inodes` and its `list_push`. -/

namespace RecoverOS

namespace OpenInodes

/-! ## The code, cut where a thread may be switched out -/

/-- `inode_open` when the inode is in `open_inodes`; `none` if it is not. -/
def lookUp (inode_no : Nat) : Prog FS (Option Nat) := do
  let inode_elem ← Prog.gets fun s => s.findInode inode_no
  match inode_elem with
  | some p => do
      let inode_found ← inodeAt p
      setInode p { inode_found with i_open_cnts := inode_found.i_open_cnts + 1 }
      pure (some p)
  | none => pure none

/-- `inode_open` from there to its `ide_read`. -/
def allocObject (inode_no : Nat) : Prog FS Nat := do
  let _ ← inodeLocate inode_no
  let p ← kernelAlloc
  sysMalloc
  pure p

/-- `inode_open` from its `ide_read` on. -/
def readObject (inode_no p : Nat) : Prog FS Unit := do
  let inode_pos ← inodeLocate inode_no
  let inode_buf ← ideRead inode_pos.lba Buf.zero 0 2
  sysFree
  setInode p { Inode.decode (inode_buf.from inode_pos.off_size) with i_open_cnts := 1 }
  Prog.modify fun s => { s with open_inodes := p :: s.open_inodes }

/-! ## The threads -/

/-- Where a thread is. -/
inductive Pc where
  /-- Not in `inode_open`. -/
  | idle
  /-- In the `ide_read` of `inode_open`, with the new object at `inode`. -/
  | reading (inode_no inode : Nat)

variable {T : Type} [DecidableEq T]

/-- `thread` opened inode `inode_no`, got `inode` and has not closed it. -/
structure Handle (T : Type) where
  thread : T
  inode_no : Nat
  inode : Nat
  deriving DecidableEq

/-- `held` is what the threads have opened; nothing in the code reads it. -/
structure State (T : Type) where
  fs : FS
  pc : T → Pc
  held : List (Handle T)

inductive Label (T : Type) where
  | found (t : T) (inode_no : Nat)
  | missed (t : T) (inode_no : Nat)
  | read (t : T)
  | close (h : Handle T)

/-- A thread opens only inodes that are allocated, and closes only what it has opened. -/
inductive Step : State T → Label T → State T → Prop where
  | found {s t inode_no p fs} (hpc : s.pc t = .idle) (ha : s.fs.allocated inode_no)
      (hrun : lookUp inode_no s.fs = .ok (some p, fs)) :
      Step s (.found t inode_no) { s with fs := fs, held := ⟨t, inode_no, p⟩ :: s.held }
  | missed {s t inode_no p fs fs'} (hpc : s.pc t = .idle) (ha : s.fs.allocated inode_no)
      (hmiss : lookUp inode_no s.fs = .ok (none, fs)) (hrun : allocObject inode_no fs = .ok (p, fs')) :
      Step s (.missed t inode_no)
        { s with fs := fs', pc := Function.update s.pc t (.reading inode_no p) }
  | read {s t inode_no p fs} (hpc : s.pc t = .reading inode_no p)
      (hrun : readObject inode_no p s.fs = .ok ((), fs)) :
      Step s (.read t)
        { fs := fs, pc := Function.update s.pc t .idle, held := ⟨t, inode_no, p⟩ :: s.held }
  | close {s h fs} (hpc : s.pc h.thread = .idle) (hheld : h ∈ s.held)
      (hrun : inodeClose h.inode s.fs = .ok ((), fs)) :
      Step s (.close h) { s with fs := fs, held := s.held.erase h }

/-- Nobody has opened anything yet, on any state of the file system. -/
structure Initial (s : State T) : Prop where
  table : s.fs.OpenTable
  recorded : ∀ no, s.fs.allocated no → (s.fs.record no).i_no = no
  pc : ∀ t, s.pc t = .idle
  held : s.held = []

/-- No thread searches in vain for an inode that another is reading. -/
def Alone (s : State T) : Label T → Prop
  | .missed _ inode_no => ∀ u no p, s.pc u = .reading no p → no ≠ inode_no
  | _ => True

/-- A step before which the condition holds. -/
def AloneStep (s : State T) (l : Label T) (s' : State T) : Prop := Alone s l ∧ Step s l s'

/-! ## The invariant -/

/-- While no two threads read one inode. -/
structure Inv (s : State T) : Prop where
  table : s.fs.OpenTable
  recorded : ∀ no, s.fs.allocated no → (s.fs.record no).i_no = no
  pending : ∀ t no p, s.pc t = .reading no p → s.fs.allocated no ∧ p < s.fs.next ∧
    s.fs.inodes p = none ∧ ∀ q i, s.fs.inodes q = some i → i.i_no ≠ no
  apart : ∀ t u no no' p q, s.pc t = .reading no p → s.pc u = .reading no' q → t ≠ u →
    no ≠ no' ∧ p ≠ q
  named : ∀ h ∈ s.held, ∃ i, s.fs.inodes h.inode = some i ∧ i.i_no = h.inode_no
  counted : ∀ p i, s.fs.inodes p = some i →
    s.held.countP (fun h => h.inode = p) ≤ i.i_open_cnts

section Proofs

variable {s s' : State T}

theorem lookUp_eq_ok {no : Nat} {r : Option Nat} {s s' : FS} (h : lookUp no s = .ok (r, s')) :
    (r = none ∧ s' = s ∧ s.findInode no = none) ∨
    ∃ p i, r = some p ∧ s.inodes p = some i ∧ i.i_no = no ∧
      s' = s.setObject p { i with i_open_cnts := i.i_open_cnts + 1 } := by
  unfold lookUp at h
  simp only [Prog.run_gets_bind] at h
  cases hf : s.findInode no with
  | none =>
      rw [hf] at h
      cases h
      exact Or.inl ⟨rfl, rfl, rfl⟩
  | some p =>
      obtain ⟨-, i, hp, hno⟩ := FS.findInode_some hf
      rw [hf] at h
      simp only [Prog.bind_of_ok (run_inodeAt hp)] at h
      cases h
      exact Or.inr ⟨p, i, rfl, hp, hno, rfl⟩

theorem lookUp_missed {no : Nat} {s : FS} (h : s.findInode no = none) :
    lookUp no s = .ok (none, s) := by
  unfold lookUp
  simp only [Prog.run_gets_bind, h]
  rfl

theorem allocObject_ok {no : Nat} (hno : no < 4096) (s : FS) : allocObject no s =
    .ok (s.next, { s with next := s.next + 1, live := s.live + 1 + 1 }) := by
  unfold allocObject
  rw [Prog.bind_of_ok (inodeLocate_run hno)]
  rfl

theorem allocObject_eq_ok {no p : Nat} {s s' : FS} (h : allocObject no s = .ok (p, s')) :
    p = s.next ∧ s' = { s with next := s.next + 1, live := s.live + 1 + 1 } := by
  by_cases hno : no < 4096
  · rw [allocObject_ok hno] at h
    cases h
    exact ⟨rfl, rfl⟩
  · unfold allocObject inodeLocate Prog.assert at h
    rw [if_neg hno] at h
    cases h

theorem readObject_ok {no : Nat} (hno : no < 4096) (p : Nat) (s : FS) :
    readObject no p s = .ok ((), { s with
      inodes := Function.update s.inodes p (some (s.opened no))
      open_inodes := p :: s.open_inodes
      live := s.live - 1 }) := by
  unfold readObject
  rw [Prog.bind_of_ok (inodeLocate_run hno),
    Prog.bind_of_ok (run_ideRead _ 0 Buf.zero Nat.two_pos _)]
  simp only [s.decode_sectors no]
  rfl

/-- A call of `inode_open` that is not interrupted. -/
theorem inodeOpen_eq {inode_no : Nat} (hno : inode_no < 4096) (s : FS) : inodeOpen inode_no s = (do
    let r ← lookUp inode_no
    match r with
    | some p => pure p
    | none => do
        let p ← allocObject inode_no
        readObject inode_no p
        pure p) s := by
  cases hf : s.findInode inode_no with
  | some p =>
      obtain ⟨-, i, hp, -⟩ := FS.findInode_some hf
      have hrun : lookUp inode_no s
          = .ok (some p, s.setObject p { i with i_open_cnts := i.i_open_cnts + 1 }) := by
        unfold lookUp
        simp only [Prog.run_gets_bind, hf]
        rw [Prog.bind_of_ok (run_inodeAt hp)]
        rfl
      rw [inodeOpen_found hf hp, Prog.bind_of_ok hrun]
      rfl
  | none =>
      rw [inodeOpen_new hf hno, Prog.bind_of_ok (lookUp_missed hf)]
      show _ = (allocObject inode_no >>= fun p => readObject inode_no p >>= fun _ => pure p) s
      rw [Prog.bind_of_ok (allocObject_ok hno s), Prog.bind_of_ok (readObject_ok hno _ _)]
      rfl

/-! ### Each step keeps the invariant -/

omit [DecidableEq T] in
/-- An inode that is open gets one reference and one handle more. -/
theorem Inv.found (h : Inv s) {t : T} {no p : Nat} {i : Inode} (hp : s.fs.inodes p = some i)
    (hno : i.i_no = no) :
    Inv { s with
      fs := s.fs.setObject p { i with i_open_cnts := i.i_open_cnts + 1 }
      held := ⟨t, no, p⟩ :: s.held } where
  table := (changesInode_openCount hp _).openTable h.table (Nat.succ_pos _)
  recorded := h.recorded
  pending t no' q hpc := by
    obtain ⟨ha, hlt, hnone, hnew⟩ := h.pending t no' q hpc
    have hqp : q ≠ p := by
      rintro rfl
      rw [hp] at hnone
      cases hnone
    refine ⟨ha, hlt, (Function.update_of_ne hqp _ _).trans hnone, fun r j hr => ?_⟩
    rcases (changesInode_openCount hp _).inodes_cases hr with ⟨rfl, rfl⟩ | ⟨-, hr⟩
    · exact hnew r i hp
    · exact hnew r j hr
  apart := h.apart
  named h' hmem := by
    rcases List.mem_cons.1 hmem with rfl | hmem
    · exact ⟨_, Function.update_self _ _ _, hno⟩
    · obtain ⟨j, hj, hjno⟩ := h.named h' hmem
      by_cases hq : h'.inode = p
      · rw [hq] at hj ⊢
        rw [hp] at hj
        cases hj
        exact ⟨_, Function.update_self _ _ _, hjno⟩
      · exact ⟨j, (Function.update_of_ne hq _ _).trans hj, hjno⟩
  counted q j hq := by
    rcases (changesInode_openCount hp _).inodes_cases hq with ⟨rfl, rfl⟩ | ⟨hqp, hq⟩
    · have hcnt := h.counted q i hp
      simpa using hcnt
    · have hcnt := h.counted q j hq
      simpa [Ne.symm hqp] using hcnt

/-- A new object is set aside for an inode that is not open. -/
theorem Inv.missed (h : Inv s) {t : T} {no n : Nat} (hpc : s.pc t = .idle) (ha : s.fs.allocated no)
    (hnone : s.fs.findInode no = none) (halone : ∀ u no' p, s.pc u = .reading no' p → no' ≠ no) :
    Inv { s with
      fs := { s.fs with next := s.fs.next + 1, live := n }
      pc := Function.update s.pc t (.reading no s.fs.next) } where
  table :=
    { nodup := h.table.nodup
      mem_iff := h.table.mem_iff
      fresh := fun p i hp => Nat.lt_succ_of_lt (h.table.fresh p i hp)
      one_object := h.table.one_object
      counted := h.table.counted
      root := h.table.root }
  recorded := h.recorded
  pending u no' q hu := by
    by_cases hut : u = t
    · subst hut
      simp only [Function.update_self, Pc.reading.injEq] at hu
      obtain ⟨rfl, rfl⟩ := hu
      refine ⟨ha, Nat.lt_succ_self _, ?_, fun r i hr => FS.findInode_none h.table hnone hr⟩
      cases hn : s.fs.inodes s.fs.next with
      | none => rfl
      | some i => exact absurd (h.table.fresh _ _ hn) (lt_irrefl _)
    · simp only [Function.update_of_ne hut] at hu
      obtain ⟨ha', hlt, hrest⟩ := h.pending u no' q hu
      exact ⟨ha', Nat.lt_succ_of_lt hlt, hrest⟩
  apart u v no1 no2 p q hu hv huv := by
    by_cases hut : u = t
    · subst hut
      simp only [Function.update_self, Pc.reading.injEq] at hu
      simp only [Function.update_of_ne huv.symm] at hv
      obtain ⟨rfl, rfl⟩ := hu
      have hlt := (h.pending v no2 q hv).2.1
      exact ⟨(halone v no2 q hv).symm, by omega⟩
    · simp only [Function.update_of_ne hut] at hu
      by_cases hvt : v = t
      · subst hvt
        simp only [Function.update_self, Pc.reading.injEq] at hv
        obtain ⟨rfl, rfl⟩ := hv
        have hlt := (h.pending u no1 p hu).2.1
        exact ⟨halone u no1 p hu, by omega⟩
      · simp only [Function.update_of_ne hvt] at hv
        exact h.apart u v no1 no2 p q hu hv huv
  named := h.named
  counted := h.counted

/-- The object joins the list; nobody else has one for its inode. -/
theorem Inv.read (h : Inv s) {t : T} {no p n : Nat} (hpc : s.pc t = .reading no p) :
    Inv { fs := { s.fs with
            inodes := Function.update s.fs.inodes p (some (s.fs.opened no))
            open_inodes := p :: s.fs.open_inodes
            live := n }
          pc := Function.update s.pc t .idle
          held := ⟨t, no, p⟩ :: s.held : State T } := by
  obtain ⟨ha, hlt, hfree, hnew⟩ := h.pending t no p hpc
  have hno : (s.fs.opened no).i_no = no := h.recorded no ha
  have hcount : s.held.countP (fun h => h.inode = p) = 0 := by
    refine List.countP_eq_zero.2 fun h' hmem heq => ?_
    obtain ⟨i, hi, -⟩ := h.named h' hmem
    rw [of_decide_eq_true heq, hfree] at hi
    cases hi
  constructor
  case table =>
    exact h.table.add hfree (fun q i hq => by rw [hno]; exact hnew q i hq) rfl rfl hlt (le_refl _) rfl
      Nat.one_pos
  case recorded => exact h.recorded
  case pending =>
    intro u no' q hu
    by_cases hut : u = t
    · subst hut
      simp at hu
    · simp only [Function.update_of_ne hut] at hu
      obtain ⟨ha', hlt', hfree', hnew'⟩ := h.pending u no' q hu
      obtain ⟨hnn, hqp⟩ := h.apart u t no' no q p hu hpc hut
      refine ⟨ha', hlt', (Function.update_of_ne hqp _ _).trans hfree', fun r i hr => ?_⟩
      by_cases hrp : r = p
      · subst hrp
        simp only [Function.update_self, Option.some.injEq] at hr
        rw [← hr, hno]
        exact hnn.symm
      · simp only [Function.update_of_ne hrp] at hr
        exact hnew' r i hr
  case apart =>
    intro u v no1 no2 q r hu hv huv
    by_cases hut : u = t
    · subst hut
      simp at hu
    · by_cases hvt : v = t
      · subst hvt
        simp at hv
      · simp only [Function.update_of_ne hut] at hu
        simp only [Function.update_of_ne hvt] at hv
        exact h.apart u v no1 no2 q r hu hv huv
  case named =>
    intro h' hmem
    rcases List.mem_cons.1 hmem with rfl | hmem
    · exact ⟨_, Function.update_self _ _ _, hno⟩
    · obtain ⟨i, hi, hino⟩ := h.named h' hmem
      have hq : h'.inode ≠ p := by
        intro heq
        rw [heq, hfree] at hi
        cases hi
      exact ⟨i, (Function.update_of_ne hq _ _).trans hi, hino⟩
  case counted =>
    intro q i hq
    by_cases hqp : q = p
    · subst hqp
      simp only [Function.update_self, Option.some.injEq] at hq
      rw [← hq]
      simp [hcount, FS.opened]
    · simp only [Function.update_of_ne hqp] at hq
      have hcnt := h.counted q i hq
      simpa [Ne.symm hqp] using hcnt

/-- The handles of one object, without one of them. -/
theorem countP_erase {l : List (Handle T)} {h : Handle T} (hmem : h ∈ l) (p : Nat) :
    l.countP (fun h => h.inode = p) =
      (l.erase h).countP (fun h => h.inode = p) + if h.inode = p then 1 else 0 := by
  rw [(List.perm_cons_erase hmem).countP_eq, List.countP_cons]
  simp

/-- The thread gives up its handle; the object is not touched. -/
theorem Inv.closeRoot (h : Inv s) (c : Handle T) : Inv { s with held := s.held.erase c } where
  table := h.table
  recorded := h.recorded
  pending := h.pending
  apart := h.apart
  named h' hmem := h.named h' (List.mem_of_mem_erase hmem)
  counted p i hp := le_trans (List.Sublist.countP_le List.erase_sublist) (h.counted p i hp)

/-- The last handle of an object, and with it the object. -/
theorem Inv.closeLast (h : Inv s) {c : Handle T} {i : Inode} (hmem : c ∈ s.held)
    (hi : s.fs.inodes c.inode = some i) (hroot : c.inode ≠ s.fs.root_dir_inode)
    (hcnt : i.i_open_cnts = 1) :
    Inv { s with fs := s.fs.dropInode c.inode, held := s.held.erase c } where
  table := h.table.drop hroot rfl rfl rfl rfl
  recorded := h.recorded
  pending t no q hpc := by
    obtain ⟨ha, hlt, hnone, hnew⟩ := h.pending t no q hpc
    have hqc : q ≠ c.inode := by
      rintro rfl
      rw [hi] at hnone
      cases hnone
    refine ⟨ha, hlt, (Function.update_of_ne hqc _ _).trans hnone, fun r j hr => ?_⟩
    by_cases hrc : r = c.inode
    · subst hrc
      simp [FS.dropInode] at hr
    · simp only [FS.dropInode, Function.update_of_ne hrc] at hr
      exact hnew r j hr
  apart := h.apart
  named h' hmem' := by
    -- the object had one reference, so no other handle names it
    have hle := h.counted c.inode i hi
    rw [hcnt, countP_erase hmem, if_pos rfl] at hle
    have hzero : (s.held.erase c).countP (fun h => h.inode = c.inode) = 0 := by omega
    have hne : h'.inode ≠ c.inode := by
      simpa using List.countP_eq_zero.1 hzero h' hmem'
    obtain ⟨j, hj, hno⟩ := h.named h' (List.mem_of_mem_erase hmem')
    exact ⟨j, (Function.update_of_ne hne _ _).trans hj, hno⟩
  counted p j hp := by
    by_cases hpc : p = c.inode
    · subst hpc
      simp [FS.dropInode] at hp
    · simp only [FS.dropInode, Function.update_of_ne hpc] at hp
      exact le_trans (List.Sublist.countP_le List.erase_sublist) (h.counted p j hp)

/-- One of several references. -/
theorem Inv.closeMore (h : Inv s) {c : Handle T} {i : Inode} (hmem : c ∈ s.held)
    (hi : s.fs.inodes c.inode = some i) (hcnt : i.i_open_cnts ≠ 1) :
    Inv { s with
      fs := s.fs.setObject c.inode { i with i_open_cnts := i.i_open_cnts - 1 }
      held := s.held.erase c } where
  table := by
    have hpos := h.table.counted c.inode i hi
    exact (changesInode_openCount hi _).openTable h.table
      (show 0 < i.i_open_cnts - 1 by omega)
  recorded := h.recorded
  pending t no q hpc := by
    obtain ⟨ha, hlt, hnone, hnew⟩ := h.pending t no q hpc
    have hqc : q ≠ c.inode := by
      rintro rfl
      rw [hi] at hnone
      cases hnone
    refine ⟨ha, hlt, (Function.update_of_ne hqc _ _).trans hnone, fun r j hr => ?_⟩
    rcases (changesInode_openCount hi _).inodes_cases hr with ⟨rfl, rfl⟩ | ⟨-, hr⟩
    · exact hnew c.inode i hi
    · exact hnew r j hr
  apart := h.apart
  named h' hmem' := by
    obtain ⟨j, hj, hno⟩ := h.named h' (List.mem_of_mem_erase hmem')
    by_cases hq : h'.inode = c.inode
    · rw [hq] at hj ⊢
      rw [hi] at hj
      cases hj
      exact ⟨_, Function.update_self _ _ _, hno⟩
    · exact ⟨j, (Function.update_of_ne hq _ _).trans hj, hno⟩
  counted p j hp := by
    have herase := countP_erase hmem p
    rcases (changesInode_openCount hi _).inodes_cases hp with ⟨rfl, rfl⟩ | ⟨-, hp⟩
    · have hle := h.counted c.inode i hi
      rw [if_pos rfl] at herase
      show (s.held.erase c).countP _ ≤ i.i_open_cnts - 1
      omega
    · have hle := h.counted p j hp
      show (s.held.erase c).countP _ ≤ j.i_open_cnts
      omega

theorem AloneStep.inv {l : Label T} (hinv : Inv s) (h : AloneStep s l s') : Inv s' := by
  obtain ⟨halone, hstep⟩ := h
  cases hstep with
  | found hpc ha hrun =>
      rcases lookUp_eq_ok hrun with ⟨hnone, -⟩ | ⟨p, i, hsome, hp, hno, rfl⟩
      · cases hnone
      · cases hsome
        exact hinv.found hp hno
  | missed hpc ha hmiss hrun =>
      rcases lookUp_eq_ok hmiss with ⟨-, rfl, hnone⟩ | ⟨p, i, hsome, -⟩
      · obtain ⟨rfl, rfl⟩ := allocObject_eq_ok hrun
        exact hinv.missed hpc ha hnone halone
      · cases hsome
  | read hpc hrun =>
      rw [readObject_ok (hinv.pending _ _ _ hpc).1.1] at hrun
      cases hrun
      exact hinv.read hpc
  | @close c fs hpc hheld hrun =>
      obtain ⟨i, hi, -⟩ := hinv.named _ hheld
      by_cases hroot : c.inode = s.fs.root_dir_inode
      · rw [inodeClose_root hroot] at hrun
        cases hrun
        exact hinv.closeRoot c
      · by_cases hcnt : i.i_open_cnts = 1
        · rw [inodeClose_last hroot hi hcnt] at hrun
          cases hrun
          exact hinv.closeLast hheld hi hroot hcnt
        · rw [inodeClose_more hroot hi hcnt] at hrun
          cases hrun
          exact hinv.closeMore hheld hi hcnt

omit [DecidableEq T] in
theorem Initial.inv (h : Initial s) : Inv s where
  table := h.table
  recorded := h.recorded
  pending t no p hpc := by
    rw [h.pc t] at hpc
    cases hpc
  apart t u no no' p q hpc := by
    rw [h.pc t] at hpc
    cases hpc
  named h' hmem := by
    rw [h.held] at hmem
    cases hmem
  counted p i _ := by
    rw [h.held]
    exact Nat.zero_le _

end Proofs

/-! ## One object for one inode -/

/-- In a run in which no thread searches in vain for an inode that another is reading, `open_inodes`
    never holds two objects of one inode, and all threads that have opened an inode hold the same
    object. -/
theorem one_object_of_alone {s s' : State T} {ls : List (Label T)} (h : Initial s)
    (hrun : Run AloneStep s ls s') :
    (s'.fs.open_inodes.map fun p => (s'.fs.inodes p).map Inode.i_no).Nodup ∧
    ∀ h1 ∈ s'.held, ∀ h2 ∈ s'.held, h1.inode_no = h2.inode_no → h1.inode = h2.inode := by
  have hinv : Inv s' := hrun.invariant (fun _ _ _ hinv hstep => hstep.inv hinv) h.inv
  constructor
  · refine List.Nodup.map_on (fun p hp q hq heq => ?_) hinv.table.nodup
    obtain ⟨i, hi⟩ := (hinv.table.mem_iff p).1 hp
    obtain ⟨j, hj⟩ := (hinv.table.mem_iff q).1 hq
    rw [hi, hj] at heq
    exact hinv.table.one_object p q i j hi hj (Option.some.inj heq)
  · intro h1 hm1 h2 hm2 hno
    obtain ⟨i, hi, hi'⟩ := hinv.named h1 hm1
    obtain ⟨j, hj, hj'⟩ := hinv.named h2 hm2
    exact hinv.table.one_object _ _ i j hi hj (hi'.trans (hno.trans hj'.symm))

/-! ### Two threads that open one inode -/

/-- The root directory is open, and inode 1 is allocated. -/
def rootOpen : FS :=
  { FS.boot (Buf.zero.putLE (512 * (sbInit 1 0).inode_table_lba + 160) 8 1) with
    sb := sbInit 1 0
    inode_bitmap := bitmapSet (bitmapSet ⟨512, Buf.zero⟩ 0 true) 1 true
    open_inodes := [1]
    inodes := fun p => if p = 1 then some ⟨0, 64, 1, FT_DIRECTORY, fun _ => 0⟩ else none
    next := 2
    root_dir_inode := 1 }

def twoThreads : State Bool where
  fs := rootOpen
  pc _ := .idle
  held := []

theorem twoThreads_initial : Initial twoThreads := by
  have hobj : ∀ p i, rootOpen.inodes p = some i → p = 1 ∧ i.i_no = 0 ∧ i.i_open_cnts = 1 := by
    intro p i hp
    simp only [rootOpen] at hp
    split at hp
    · next h1 =>
        cases hp
        exact ⟨h1, rfl, rfl⟩
    · cases hp
  constructor
  case table =>
    constructor
    case nodup => exact List.nodup_singleton 1
    case mem_iff =>
      intro p
      show p ∈ [1] ↔ _
      rw [List.mem_singleton]
      constructor
      · rintro rfl
        exact ⟨_, rfl⟩
      · rintro ⟨i, hi⟩
        exact (hobj p i hi).1
    case fresh =>
      intro p i hp
      rw [(hobj p i hp).1]
      decide
    case one_object =>
      intro p q i j hp hq _
      exact (hobj p i hp).1.trans (hobj q j hq).1.symm
    case counted =>
      intro p i hp
      rw [(hobj p i hp).2.2]
      exact Nat.one_pos
    case root => exact ⟨_, rfl, rfl⟩
  case recorded =>
    rintro no ⟨-, hset⟩
    have hno : no = 1 ∨ no = 0 := by
      by_contra hne
      rw [not_or] at hne
      have hclear : bitmapRead rootOpen.inode_bitmap no = false := by
        show bitmapRead (bitmapSet (bitmapSet ⟨512, Buf.zero⟩ 0 true) 1 true) no = false
        rw [bitmapRead_bitmapSet_of_ne _ _ hne.1, bitmapRead_bitmapSet_of_ne _ _ hne.2]
        exact bitmapRead_of_zero rfl
      exact Bool.false_ne_true (hclear.symm.trans hset)
    show (rootOpen.disk.from (rootOpen.recordAddr no)).getLE 0 8 = no
    rw [Buf.getLE_from]
    rcases hno with rfl | rfl
    · exact Buf.getLE_putLE_of_lt _ _ (by decide)
    · refine (Buf.getLE_putLE_disjoint _ _ (by decide)).trans ?_
      exact Buf.getLE_of_leBytes (v := 0) 8 fun k _ => by simp [leBytes]
  case pc => exact fun _ => rfl
  case held => rfl


theorem one_object_of_alone_read : ∃ s' : State Bool, s'.held = [⟨false, 1, 2⟩] ∧
    (s'.fs.open_inodes.map fun p => (s'.fs.inodes p).map Inode.i_no).Nodup := by
  have ha : rootOpen.allocated 1 := ⟨by decide, by decide⟩
  have halone : Alone twoThreads (.missed false 1) := by
    intro u no p hpc
    cases hpc
  refine ⟨_, rfl, (one_object_of_alone twoThreads_initial
    (Run.cons ⟨halone, Step.missed rfl ha (lookUp_missed rfl) (allocObject_ok (by decide) _)⟩
      (Run.cons ⟨show Alone _ (.read false) from trivial, Step.read rfl (readObject_ok (by decide) _ _)⟩ .nil))).1⟩

/-- Two threads search for inode 1 in vain before either has read it, and get two objects. -/
theorem not_one_object : ∃ (s' : State Bool) (ls : List (Label Bool)),
    Initial twoThreads ∧ Run Step twoThreads ls s' ∧
    ¬ (s'.fs.open_inodes.map fun p => (s'.fs.inodes p).map Inode.i_no).Nodup ∧
    ∃ h1 ∈ s'.held, ∃ h2 ∈ s'.held, h1.inode_no = h2.inode_no ∧ h1.inode ≠ h2.inode := by
  have ha : rootOpen.allocated 1 := ⟨by decide, by decide⟩
  refine ⟨_, _, twoThreads_initial,
    Run.cons (Step.missed (t := false) rfl ha (lookUp_missed rfl) (allocObject_ok (by decide) _))
      (Run.cons (Step.missed (t := true) rfl ha (lookUp_missed rfl) (allocObject_ok (by decide) _))
        (Run.cons (Step.read (t := false) rfl (readObject_ok (by decide) _ _))
          (Run.cons (Step.read (t := true) rfl (readObject_ok (by decide) _ _)) .nil))), ?_, ?_⟩
  · intro hnodup
    exact (List.nodup_cons.1 hnodup).1 (List.mem_cons.2 (Or.inl rfl))
  · exact ⟨_, List.mem_cons_self, _, List.mem_cons_of_mem _ List.mem_cons_self, rfl, by decide⟩

end OpenInodes

end RecoverOS
