import Mathlib.Logic.Function.Basic
import RecoverOS.Base.Prog
import RecoverOS.Base.Run

set_option autoImplicit false

/-! # File descriptors and `sys_fork` (`fs/file.c`, `fs/fs.c`, `userprog`)

The global `file_table`, and the `fd_table` of every process from local descriptor 3 on. The calls on
regular files are modelled up to what they do to the two tables: which inode a path names and what is
read or written is left open, and so are the open counts, which nothing here reads. -/

namespace RecoverOS

namespace Descriptors

/-- `MAX_FILES_OPEN`. -/
abbrev MAX_FILES_OPEN : Nat := 32

/-- `MAX_FILES_OPEN_PER_PROC`. -/
abbrev MAX_FILES_OPEN_PER_PROC : Nat := 8

/-- `struct file`: `fd_inode` is `none` for `NULL`. -/
structure File where
  fd_pos : Nat
  fd_inode : Option Nat

variable {P : Type} [DecidableEq P]

/-- `opened p fd` is the inode that process `p` has open at `fd`: it opened it or inherited it, and has
    not closed it. No code reads it. A process that does not exist has no descriptors. -/
structure State (P : Type) where
  file_table : Nat → File
  fd_table : P → Nat → Option Nat
  live : P → Bool
  opened : P → Nat → Option Nat

/-! ## The code -/

/-- `get_free_slot_in_global`. -/
def getFreeSlotInGlobal (s : State P) : Option Nat :=
  (List.range' 3 (MAX_FILES_OPEN - 3)).find? fun i => (s.file_table i).fd_inode.isNone

/-- `pcb_fd_install`. -/
def pcbFdInstall (p : P) (global_fd_idx : Nat) : Prog (State P) (Option Nat) := do
  let s ← Prog.get
  match (List.range' 3 (MAX_FILES_OPEN_PER_PROC - 3)).find? fun i => (s.fd_table p i).isNone with
  | none => pure none
  | some fd => do
      Prog.modify fun s => { s with
        fd_table := Function.update s.fd_table p
          (Function.update (s.fd_table p) fd (some global_fd_idx)) }
      pure (some fd)

/-- The end of `file_open` and of `file_create`, which got `inode`; `none` stands for `-1`. -/
def fileInstall (p : P) (inode : Nat) : Prog (State P) (Option Nat) := do
  let s ← Prog.get
  match getFreeSlotInGlobal s with
  | none => pure none
  | some fd_idx => do
      Prog.modify fun s => { s with
        file_table := Function.update s.file_table fd_idx ⟨0, some inode⟩ }
      pcbFdInstall p fd_idx

/-- `sys_open`: `inode` is what `search_file` or `create_file_or_directory` returns. -/
def sysOpen (p : P) (inode : Option Nat) : Prog (State P) (Option Nat) :=
  match inode with
  | none => pure none
  | some inode => fileInstall p inode

/-- `fd_local2global`. -/
def fdLocal2Global (p : P) (local_fd : Nat) : Prog (State P) Nat := do
  let s ← Prog.get
  match s.fd_table p local_fd with
  | none => Prog.fault .panic
  | some global_fd => do
      Prog.assert (global_fd < MAX_FILES_OPEN)
      pure global_fd

/-- `file_close`; the `NULL` of a closed slot is read through. -/
def fileClose (fd_idx : Nat) : Prog (State P) Unit := do
  let s ← Prog.get
  Prog.require ((s.file_table fd_idx).fd_inode ≠ none)
  Prog.modify fun s => { s with
    file_table := Function.update s.file_table fd_idx { s.file_table fd_idx with fd_inode := none } }

/-- `sys_close` of a regular file. -/
def sysClose (p : P) (fd : Nat) : Prog (State P) Unit := do
  Prog.assert (2 < fd)
  let fd_idx ← fdLocal2Global p fd
  fileClose fd_idx
  Prog.modify fun s => { s with
    fd_table := Function.update s.fd_table p (Function.update (s.fd_table p) fd none) }

/-- The loop of `release_prog_resource`. -/
def closeAll (p : P) : List Nat → Prog (State P) Unit
  | [] => pure ()
  | local_fd :: fds => do
      let s ← Prog.get
      if s.fd_table p local_fd ≠ none then sysClose p local_fd else pure ()
      closeAll p fds

/-- `sys_exit`. -/
def sysExit (p : P) : Prog (State P) Unit := do
  closeAll p (List.range' 3 (MAX_FILES_OPEN_PER_PROC - 3))
  Prog.modify fun s => { s with live := Function.update s.live p false }

/-- `update_inode_open_cnts`: it reads the inode of every descriptor. -/
def updateInodeOpenCnts (c : P) : List Nat → Prog (State P) Unit
  | [] => pure ()
  | local_fd :: fds => do
      let s ← Prog.get
      match s.fd_table c local_fd with
      | none => updateInodeOpenCnts c fds
      | some global_fd => do
          Prog.assert (global_fd < MAX_FILES_OPEN)
          Prog.require ((s.file_table global_fd).fd_inode ≠ none)
          updateInodeOpenCnts c fds

/-- `sys_fork`: the child gets a copy of the table. -/
def sysFork (p c : P) : Prog (State P) Unit := do
  Prog.modify fun s => { s with
    fd_table := Function.update s.fd_table c (s.fd_table p)
    live := Function.update s.live c true }
  updateInodeOpenCnts c (List.range' 3 (MAX_FILES_OPEN_PER_PROC - 3))

/-- `sys_read`, `sys_write` and `sys_lseek`, which leave `fd_pos` at `pos`. -/
def sysMove (p : P) (fd pos : Nat) : Prog (State P) Unit := do
  let fd_idx ← fdLocal2Global p fd
  let s ← Prog.get
  Prog.require ((s.file_table fd_idx).fd_inode ≠ none)
  Prog.modify fun s => { s with
    file_table := Function.update s.file_table fd_idx { s.file_table fd_idx with fd_pos := pos } }

/-! ## Runs -/

inductive Label (P : Type) where
  | open (p : P) (inode : Option Nat) (fd : Option Nat)
  | close (p : P) (fd : Nat)
  | exit (p : P)
  | fork (p c : P)
  | move (p : P) (fd pos : Nat)

/-- The calls of processes that exist; a child is a process that does not exist yet. -/
inductive Step : State P → Label P → State P → Prop where
  | openFail {s p inode s'} (hlive : s.live p = true) (hrun : sysOpen p inode s = .ok (none, s')) :
      Step s (.open p inode none) s'
  | open {s p inode fd s'} (hlive : s.live p = true)
      (hrun : sysOpen p inode s = .ok (some fd, s')) :
      Step s (.open p inode (some fd)) { s' with
        opened := Function.update s'.opened p (Function.update (s'.opened p) fd inode) }
  | close {s p fd s'} (hlive : s.live p = true) (hrun : sysClose p fd s = .ok ((), s')) :
      Step s (.close p fd) { s' with
        opened := Function.update s'.opened p (Function.update (s'.opened p) fd none) }
  | exit {s p s'} (hlive : s.live p = true) (hrun : sysExit p s = .ok ((), s')) :
      Step s (.exit p) { s' with opened := Function.update s'.opened p fun _ => none }
  | fork {s p c s'} (hlive : s.live p = true) (hchild : s.live c = false)
      (hrun : sysFork p c s = .ok ((), s')) :
      Step s (.fork p c) { s' with opened := Function.update s'.opened c (s'.opened p) }
  | move {s p fd pos s'} (hlive : s.live p = true) (hrun : sysMove p fd pos s = .ok ((), s')) :
      Step s (.move p fd pos) s'

/-- Nothing is open yet. -/
structure Initial (s : State P) : Prop where
  fd_table : ∀ p fd, s.fd_table p fd = none
  opened : ∀ p fd, s.opened p fd = none

/-- What a process has open is in the slot of its descriptor. -/
def Kept (s : State P) : Prop := ∀ p fd inode, s.live p = true → s.opened p fd = some inode →
  ∃ fd_idx, s.fd_table p fd = some fd_idx ∧ (s.file_table fd_idx).fd_inode = some inode

/-- No other process has the slot of a descriptor that is closed. -/
def Unshared (s : State P) : Label P → Prop
  | .close p fd => ∀ g, s.fd_table p fd = some g → ∀ q fd', q ≠ p → s.fd_table q fd' ≠ some g
  | .exit p => ∀ fd g, s.fd_table p fd = some g → ∀ q fd', q ≠ p → s.fd_table q fd' ≠ some g
  | _ => True

/-- A step before which the condition holds. -/
def UnsharedStep (s : State P) (l : Label P) (s' : State P) : Prop := Unshared s l ∧ Step s l s'

/-! ## The invariant -/

/-- While no slot is closed under another process: every descriptor names a slot with its inode, and
    no process has a slot twice. -/
structure Inv (s : State P) : Prop where
  bound : ∀ p fd g, s.fd_table p fd = some g → 3 ≤ fd ∧ fd < MAX_FILES_OPEN_PER_PROC
  slot : ∀ p fd g, s.fd_table p fd = some g →
    ∃ inode, s.opened p fd = some inode ∧ (s.file_table g).fd_inode = some inode
  descriptor : ∀ p fd inode, s.opened p fd = some inode → ∃ g, s.fd_table p fd = some g
  once : ∀ p fd fd' g, s.fd_table p fd = some g → s.fd_table p fd' = some g → fd = fd'
  dead : ∀ p fd, s.live p = false → s.fd_table p fd = none

omit [DecidableEq P] in
theorem Initial.inv {s : State P} (h : Initial s) : Inv s where
  bound := fun p fd g hg => by rw [h.fd_table p fd] at hg; cases hg
  slot := fun p fd g hg => by rw [h.fd_table p fd] at hg; cases hg
  descriptor := fun p fd inode ho => by rw [h.opened p fd] at ho; cases ho
  once := fun p fd fd' g hg _ => by rw [h.fd_table p fd] at hg; cases hg
  dead := fun p fd _ => h.fd_table p fd

omit [DecidableEq P] in
theorem Inv.kept {s : State P} (h : Inv s) : Kept s := by
  intro p fd inode _ ho
  obtain ⟨g, hg⟩ := h.descriptor p fd inode ho
  obtain ⟨inode', ho', hslot⟩ := h.slot p fd g hg
  rw [ho] at ho'
  cases ho'
  exact ⟨g, hg, hslot⟩

omit [DecidableEq P] in
/-- Nobody has a slot that is free. -/
theorem Inv.ne_of_free {s : State P} (h : Inv s) {g : Nat}
    (hfree : (s.file_table g).fd_inode = none) (p : P) (fd : Nat) : s.fd_table p fd ≠ some g := by
  intro hg
  obtain ⟨inode, -, hslot⟩ := h.slot p fd g hg
  rw [hfree] at hslot
  cases hslot

/-! ## Opening -/

omit [DecidableEq P] in
theorem getFreeSlotInGlobal_eq_some {s : State P} {g : Nat} (h : getFreeSlotInGlobal s = some g) :
    (s.file_table g).fd_inode = none := by
  have hnone := List.find?_some h
  simpa using hnone

omit [DecidableEq P] in
/-- A slot that was free may be filled, with or without a descriptor for it. -/
theorem Inv.fill {s : State P} (h : Inv s) {g : Nat} (hfree : (s.file_table g).fd_inode = none)
    (f : File) : Inv { s with file_table := Function.update s.file_table g f } where
  bound := h.bound
  slot := fun p fd g' hg' => by
    have hne : g' ≠ g := fun heq => h.ne_of_free hfree p fd (heq ▸ hg')
    show ∃ inode, s.opened p fd = some inode ∧
      (Function.update s.file_table g f g').fd_inode = some inode
    rw [Function.update_of_ne hne]
    exact h.slot p fd g' hg'
  descriptor := h.descriptor
  once := h.once
  dead := h.dead

theorem pcbFdInstall_cases {p : P} {g : Nat} {r : Option Nat} {s s' : State P}
    (h : pcbFdInstall p g s = .ok (r, s')) :
    (r = none ∧ s' = s) ∨
      ∃ fd, r = some fd ∧ s.fd_table p fd = none ∧ 3 ≤ fd ∧ fd < MAX_FILES_OPEN_PER_PROC ∧
        s' = { s with
          fd_table := Function.update s.fd_table p (Function.update (s.fd_table p) fd (some g)) } := by
  simp only [pcbFdInstall, Prog.bind_eq_ok, Prog.get_eq_ok] at h
  obtain ⟨_, _, ⟨rfl, rfl⟩, h⟩ := h
  generalize hfind : List.find? _ _ = o at h
  cases o with
  | none =>
      simp only [Prog.pure_eq_ok] at h
      exact .inl ⟨h.1.symm, h.2.symm⟩
  | some fd =>
      simp only [Prog.run_modify_bind, Prog.pure_eq_ok] at h
      have hmem := List.mem_of_find?_eq_some hfind
      have hfree := List.find?_some hfind
      rw [List.mem_range'_1] at hmem
      exact .inr ⟨fd, h.1.symm, by simpa using hfree, hmem.1, hmem.2, h.2.symm⟩

/-- What a call of `open` that succeeds leaves. -/
theorem sysOpen_some {p : P} {inode : Option Nat} {fd : Nat} {s s' : State P}
    (h : sysOpen p inode s = .ok (some fd, s')) :
    ∃ i g, inode = some i ∧ (s.file_table g).fd_inode = none ∧ s.fd_table p fd = none ∧
      3 ≤ fd ∧ fd < MAX_FILES_OPEN_PER_PROC ∧
      s' = { s with
        file_table := Function.update s.file_table g ⟨0, some i⟩
        fd_table := Function.update s.fd_table p
          (Function.update (s.fd_table p) fd (some g)) } := by
  cases inode with
  | none => simp [sysOpen] at h
  | some i =>
      simp only [sysOpen, fileInstall, Prog.bind_eq_ok, Prog.get_eq_ok] at h
      obtain ⟨t, t', ⟨rfl, rfl⟩, h⟩ := h
      cases hslot : getFreeSlotInGlobal s with
      | none =>
          rw [hslot] at h
          simp at h
      | some g =>
          rw [hslot] at h
          obtain ⟨hr, -⟩ | ⟨fd', hr, hfree, h3, hmax, hs'⟩ := pcbFdInstall_cases h
          · cases hr
          · cases hr
            exact ⟨i, g, rfl, getFreeSlotInGlobal_eq_some hslot, hfree, h3, hmax, hs'⟩

/-- A call of `open` that fails leaves the tables, or takes a slot that nobody gets. -/
theorem sysOpen_none {p : P} {inode : Option Nat} {s s' : State P}
    (h : sysOpen p inode s = .ok (none, s')) :
    s' = s ∨ ∃ g f, (s.file_table g).fd_inode = none ∧
      s' = { s with file_table := Function.update s.file_table g f } := by
  cases inode with
  | none =>
      simp only [sysOpen, Prog.pure_eq_ok, true_and] at h
      exact .inl h.symm
  | some i =>
      simp only [sysOpen, fileInstall, Prog.bind_eq_ok, Prog.get_eq_ok] at h
      obtain ⟨t, t', ⟨rfl, rfl⟩, h⟩ := h
      cases hslot : getFreeSlotInGlobal s with
      | none =>
          rw [hslot] at h
          simp only [Prog.pure_eq_ok, true_and] at h
          exact .inl h.symm
      | some g =>
          rw [hslot] at h
          obtain ⟨-, hs'⟩ | ⟨fd', hr, -⟩ := pcbFdInstall_cases h
          · exact .inr ⟨g, _, getFreeSlotInGlobal_eq_some hslot, hs'⟩
          · cases hr

/-- A descriptor for a slot that was just filled. -/
theorem Inv.install {s : State P} (h : Inv s) {p : P} {fd g i : Nat} (hlive : s.live p = true)
    (hfree : (s.file_table g).fd_inode = none) (hfd : s.fd_table p fd = none) (h3 : 3 ≤ fd)
    (hmax : fd < MAX_FILES_OPEN_PER_PROC) :
    Inv { s with
      file_table := Function.update s.file_table g ⟨0, some i⟩
      fd_table := Function.update s.fd_table p (Function.update (s.fd_table p) fd (some g))
      opened := Function.update s.opened p (Function.update (s.opened p) fd (some i)) } := by
  -- a descriptor of the new table is the new one or an old one
  have hold : ∀ q fd' g', Function.update s.fd_table p
      (Function.update (s.fd_table p) fd (some g)) q fd' = some g' →
      (q = p ∧ fd' = fd ∧ g' = g) ∨ (¬ (q = p ∧ fd' = fd) ∧ s.fd_table q fd' = some g') := by
    intro q fd' g' hg'
    by_cases hq : q = p
    · subst hq
      rw [Function.update_self] at hg'
      by_cases hf : fd' = fd
      · subst hf
        rw [Function.update_self] at hg'
        cases hg'
        exact .inl ⟨rfl, rfl, rfl⟩
      · rw [Function.update_of_ne hf] at hg'
        exact .inr ⟨fun hc => hf hc.2, hg'⟩
    · rw [Function.update_of_ne hq] at hg'
      exact .inr ⟨fun hc => hq hc.1, hg'⟩
  refine ⟨?bound, ?slot, ?descriptor, ?once, ?dead⟩
  case bound =>
    intro q fd' g' hg'
    obtain ⟨-, rfl, -⟩ | ⟨-, hg'⟩ := hold q fd' g' hg'
    · exact ⟨h3, hmax⟩
    · exact h.bound q fd' g' hg'
  case slot =>
    intro q fd' g' hg'
    obtain ⟨rfl, rfl, rfl⟩ | ⟨hne, hg'⟩ := hold q fd' g' hg'
    · exact ⟨i, by simp, by simp⟩
    · have hg : g' ≠ g := fun heq => h.ne_of_free hfree q fd' (heq ▸ hg')
      obtain ⟨inode, ho, hslot⟩ := h.slot q fd' g' hg'
      refine ⟨inode, ?_, ?_⟩
      · show Function.update s.opened p _ q fd' = some inode
        by_cases hq : q = p
        · subst hq
          rw [Function.update_self, Function.update_of_ne fun hf => hne ⟨rfl, hf⟩]
          exact ho
        · rw [Function.update_of_ne hq]
          exact ho
      · show (Function.update s.file_table g _ g').fd_inode = some inode
        rw [Function.update_of_ne hg]
        exact hslot
  case descriptor =>
    intro q fd' inode ho
    by_cases hq : q = p
    · subst hq
      by_cases hf : fd' = fd
      · exact ⟨g, by simp [hf]⟩
      · simp only [Function.update_self, Function.update_of_ne hf] at ho ⊢
        exact h.descriptor q fd' inode ho
    · simp only [Function.update_of_ne hq] at ho ⊢
      exact h.descriptor q fd' inode ho
  case once =>
    intro q fd1 fd2 g' h1 h2
    obtain ⟨-, hf1, hg1⟩ | ⟨-, hold1⟩ := hold q fd1 g' h1
    · obtain ⟨-, hf2, -⟩ | ⟨-, hold2⟩ := hold q fd2 g' h2
      · rw [hf1, hf2]
      · exact absurd (hg1 ▸ hold2) (h.ne_of_free hfree q fd2)
    · obtain ⟨-, -, hg2⟩ | ⟨-, hold2⟩ := hold q fd2 g' h2
      · exact absurd (hg2 ▸ hold1) (h.ne_of_free hfree q fd1)
      · exact h.once q fd1 fd2 g' hold1 hold2
  case dead =>
    intro q fd' hdead
    have hq : q ≠ p := by
      rintro rfl
      exact Bool.false_ne_true (hdead.symm.trans hlive)
    show Function.update s.fd_table p _ q fd' = none
    rw [Function.update_of_ne hq]
    exact h.dead q fd' hdead

/-! ## Closing -/

theorem sysClose_eq_ok {p : P} {fd : Nat} {s s' : State P} :
    sysClose p fd s = .ok ((), s') ↔ ∃ g, 2 < fd ∧ s.fd_table p fd = some g ∧ g < MAX_FILES_OPEN ∧
      (s.file_table g).fd_inode ≠ none ∧
      s' = { s with
        file_table := Function.update s.file_table g { s.file_table g with fd_inode := none }
        fd_table := Function.update s.fd_table p (Function.update (s.fd_table p) fd none) } := by
  simp only [sysClose, fdLocal2Global, fileClose, Prog.bind_eq_ok, Prog.assert_eq_ok,
    Prog.get_eq_ok, Prog.require_eq_ok, Prog.modify_eq_ok]
  constructor
  · rintro ⟨-, _, ⟨hfd, rfl⟩, g, t, ⟨_, _, ⟨rfl, rfl⟩, hg⟩, -, u,
      ⟨_, _, ⟨rfl, rfl⟩, -, _, ⟨hne, rfl⟩, rfl⟩, rfl⟩
    cases htab : s.fd_table p fd with
    | none =>
        rw [htab] at hg
        simp at hg
    | some g' =>
        rw [htab] at hg
        simp only [Prog.bind_eq_ok, Prog.assert_eq_ok, Prog.pure_eq_ok] at hg
        obtain ⟨-, _, ⟨hlt, rfl⟩, rfl, rfl⟩ := hg
        exact ⟨g', hfd, rfl, hlt, hne, rfl⟩
  · rintro ⟨g, hfd, hg, hlt, hne, rfl⟩
    refine ⟨(), s, ⟨hfd, rfl⟩, g, s, ⟨s, s, ⟨rfl, rfl⟩, ?_⟩, (), _,
      ⟨s, s, ⟨rfl, rfl⟩, (), s, ⟨hne, rfl⟩, rfl⟩, rfl⟩
    rw [hg]
    simp [hlt]

/-- What the loop of `release_prog_resource` leaves: the descriptors of `fds` closed, and their slots,
    whoever else has them. -/
structure Closed (p : P) (fds : List Nat) (s s' : State P) : Prop where
  opened : s'.opened = s.opened
  live : s'.live = s.live
  others : ∀ q, q ≠ p → s'.fd_table q = s.fd_table q
  descriptor : ∀ fd, s'.fd_table p fd = if fd ∈ fds then none else s.fd_table p fd
  slot : ∀ fd g, fd ∈ fds → s.fd_table p fd = some g → (s'.file_table g).fd_inode = none
  frame : ∀ g, (∀ fd ∈ fds, s.fd_table p fd ≠ some g) → s'.file_table g = s.file_table g

theorem closeAll_closed {p : P} {fds : List Nat} {s s' : State P}
    (h : closeAll p fds s = .ok ((), s')) : Closed p fds s s' := by
  induction fds generalizing s with
  | nil =>
      simp only [closeAll, Prog.pure_eq_ok, true_and] at h
      subst h
      exact ⟨rfl, rfl, fun _ _ => rfl, fun _ => by simp, by simp, fun _ _ => rfl⟩
  | cons fd fds ih =>
      simp only [closeAll, Prog.bind_eq_ok, Prog.get_eq_ok] at h
      obtain ⟨_, _, ⟨rfl, rfl⟩, h⟩ := h
      cases htab : s.fd_table p fd with
      | none =>
          simp only [htab, ne_eq, not_true_eq_false, if_false] at h
          have hrest := ih h
          refine ⟨hrest.opened, hrest.live, hrest.others, ?_, ?_, ?_⟩
          · intro fd'
            rw [hrest.descriptor fd']
            by_cases hf : fd' = fd
            · subst hf
              simp [htab]
            · simp [hf]
          · intro fd' g hmem hg
            rcases List.mem_cons.1 hmem with rfl | hmem
            · rw [htab] at hg
              cases hg
            · exact hrest.slot fd' g hmem hg
          · intro g hg
            exact hrest.frame g fun fd' hmem => hg fd' (List.mem_cons_of_mem _ hmem)
      | some g0 =>
          simp only [htab, ne_eq, reduceCtorEq, not_false_eq_true, if_true, Prog.bind_eq_ok] at h
          obtain ⟨_, t, hclose, h⟩ := h
          have hrest := ih h
          obtain ⟨g1, -, hg1, -, -, rfl⟩ := sysClose_eq_ok.1 hclose
          rw [htab] at hg1
          cases hg1
          -- what is closed once stays closed
          have hclosed : (s'.file_table g0).fd_inode = none := by
            by_cases hagain : ∃ fd' ∈ fds, Function.update s.fd_table p
                (Function.update (s.fd_table p) fd none) p fd' = some g0
            · obtain ⟨fd', hmem, hg⟩ := hagain
              exact hrest.slot fd' g0 hmem hg
            · rw [hrest.frame g0 fun fd' hmem hg => hagain ⟨fd', hmem, hg⟩]
              simp
          refine ⟨hrest.opened, hrest.live, ?_, ?_, ?_, ?_⟩
          · intro q hq
            rw [hrest.others q hq]
            exact Function.update_of_ne hq _ _
          · intro fd'
            rw [hrest.descriptor fd']
            by_cases hf : fd' = fd
            · subst hf
              simp
            · simp [hf]
          · intro fd' g hmem hg
            by_cases hf : fd' = fd
            · subst hf
              rw [htab] at hg
              cases hg
              exact hclosed
            · refine hrest.slot fd' g ((List.mem_cons.1 hmem).resolve_left hf) ?_
              simpa [hf] using hg
          · intro g hg
            have hne : g ≠ g0 := by
              rintro rfl
              exact hg fd (List.mem_cons_self ..) htab
            rw [hrest.frame g ?_]
            · exact Function.update_of_ne hne _ _
            · intro fd' hmem hg'
              by_cases hf : fd' = fd
              · subst hf
                simp at hg'
              · exact hg fd' (List.mem_cons_of_mem _ hmem) (by simpa [hf] using hg')

/-- Closing `fds` of a process that shares none of their slots. -/
theorem Inv.closed {s s' : State P} (h : Inv s) {p : P} {fds : List Nat} (hc : Closed p fds s s')
    (hun : ∀ fd ∈ fds, ∀ g, s.fd_table p fd = some g → ∀ q fd', q ≠ p → s.fd_table q fd' ≠ some g) :
    Inv { s' with
      opened := Function.update s'.opened p fun fd => if fd ∈ fds then none else s'.opened p fd } := by
  -- a descriptor that is left was there before
  have hold : ∀ q fd g, s'.fd_table q fd = some g →
      ¬ (q = p ∧ fd ∈ fds) ∧ s.fd_table q fd = some g := by
    intro q fd g hg
    by_cases hq : q = p
    · subst hq
      rw [hc.descriptor fd] at hg
      split at hg
      · cases hg
      · next hmem => exact ⟨fun hcon => hmem hcon.2, hg⟩
    · rw [hc.others q hq] at hg
      exact ⟨fun hcon => hq hcon.1, hg⟩
  refine ⟨?bound, ?slot, ?descriptor, ?once, ?dead⟩
  case bound =>
    intro q fd g hg
    exact h.bound q fd g (hold q fd g hg).2
  case slot =>
    intro q fd g hg
    obtain ⟨hne, hg0⟩ := hold q fd g hg
    obtain ⟨inode, ho, hslot⟩ := h.slot q fd g hg0
    refine ⟨inode, ?_, ?_⟩
    · show Function.update s'.opened p _ q fd = some inode
      rw [hc.opened]
      by_cases hq : q = p
      · subst hq
        rw [Function.update_self, if_neg fun hmem => hne ⟨rfl, hmem⟩]
        exact ho
      · rw [Function.update_of_ne hq]
        exact ho
    · show (s'.file_table g).fd_inode = some inode
      rw [hc.frame g ?_]
      · exact hslot
      · intro fd' hmem hg'
        by_cases hq : q = p
        · subst hq
          exact hne ⟨rfl, h.once q fd fd' g hg0 hg' ▸ hmem⟩
        · exact hun fd' hmem g hg' q fd hq hg0
  case descriptor =>
    intro q fd inode ho
    show ∃ g, s'.fd_table q fd = some g
    by_cases hq : q = p
    · subst hq
      simp only [Function.update_self, hc.opened] at ho
      split at ho
      · cases ho
      · next hmem =>
        rw [hc.descriptor fd, if_neg hmem]
        exact h.descriptor q fd inode ho
    · simp only [Function.update_of_ne hq, hc.opened] at ho
      rw [hc.others q hq]
      exact h.descriptor q fd inode ho
  case once =>
    intro q fd1 fd2 g h1 h2
    exact h.once q fd1 fd2 g (hold q fd1 g h1).2 (hold q fd2 g h2).2
  case dead =>
    intro q fd hdead
    have hnone := h.dead q fd (hc.live ▸ hdead)
    show s'.fd_table q fd = none
    cases hg : s'.fd_table q fd with
    | none => rfl
    | some g =>
        rw [(hold q fd g hg).2] at hnone
        cases hnone

theorem Inv.kill {s : State P} (h : Inv s) {p : P} (hnone : ∀ fd, s.fd_table p fd = none) :
    Inv { s with live := Function.update s.live p false } where
  bound := h.bound
  slot := h.slot
  descriptor := h.descriptor
  once := h.once
  dead := fun q fd hdead => by
    by_cases hq : q = p
    · exact hq ▸ hnone fd
    · exact h.dead q fd (by simpa [hq] using hdead)

omit [DecidableEq P] in
/-- Whoever shares a slot that is closed has lost it. -/
theorem Inv.not_kept {s s' : State P} (h : Inv s) {p q : P} {fds : List Nat} {fd fd' g : Nat}
    (hc : Closed p fds s s') (hmem : fd ∈ fds) (hg : s.fd_table p fd = some g) (hq : q ≠ p)
    (hg' : s.fd_table q fd' = some g) {s'' : State P} (hkept : Kept s'') (hfile : s''.file_table = s'.file_table)
    (htab : s''.fd_table q = s'.fd_table q) (hopened : s''.opened q = s'.opened q)
    (hlive : s''.live q = s'.live q) : False := by
  obtain ⟨inode, ho, -⟩ := h.slot q fd' g hg'
  have hq_live : s.live q = true := by
    cases hl : s.live q with
    | true => rfl
    | false =>
        rw [h.dead q fd' hl] at hg'
        cases hg'
  obtain ⟨g', hg'', hslot⟩ := hkept q fd' inode (by rw [hlive, hc.live, hq_live])
    (by rw [hopened, hc.opened, ho])
  rw [htab, hc.others q hq, hg'] at hg''
  cases hg''
  rw [hfile, hc.slot fd g hmem hg] at hslot
  cases hslot

theorem Closed.of_sysClose {p : P} {fd : Nat} {s s' : State P} (h : sysClose p fd s = .ok ((), s')) :
    Closed p [fd] s s' := by
  obtain ⟨g, -, hg, -, -, rfl⟩ := sysClose_eq_ok.1 h
  refine ⟨rfl, rfl, fun q hq => Function.update_of_ne hq _ _, ?_, ?_, ?_⟩
  · intro fd'
    by_cases hf : fd' = fd
    · simp [hf]
    · simp [hf]
  · intro fd' g' hmem hg'
    rw [List.mem_singleton.1 hmem, hg] at hg'
    cases hg'
    simp
  · intro g' hg'
    have hne : g' ≠ g := by
      rintro rfl
      exact hg' fd (List.mem_singleton.2 rfl) hg
    exact Function.update_of_ne hne _ _

/-! ## `sys_fork` and the calls that move the position -/

omit [DecidableEq P] in
theorem updateInodeOpenCnts_state {c : P} {fds : List Nat} {s s' : State P}
    (h : updateInodeOpenCnts c fds s = .ok ((), s')) : s' = s := by
  induction fds with
  | nil =>
      simp only [updateInodeOpenCnts, Prog.pure_eq_ok, true_and] at h
      exact h.symm
  | cons fd fds ih =>
      simp only [updateInodeOpenCnts, Prog.bind_eq_ok, Prog.get_eq_ok] at h
      obtain ⟨_, _, ⟨rfl, rfl⟩, h⟩ := h
      cases htab : s.fd_table c fd with
      | none =>
          rw [htab] at h
          exact ih h
      | some g =>
          rw [htab] at h
          simp only [Prog.bind_eq_ok, Prog.assert_eq_ok, Prog.require_eq_ok] at h
          obtain ⟨_, _, ⟨-, rfl⟩, _, _, ⟨-, rfl⟩, h⟩ := h
          exact ih h

theorem sysFork_state {p c : P} {s s' : State P} (h : sysFork p c s = .ok ((), s')) :
    s' = { s with
      fd_table := Function.update s.fd_table c (s.fd_table p)
      live := Function.update s.live c true } := by
  simp only [sysFork, Prog.run_modify_bind] at h
  exact updateInodeOpenCnts_state h

theorem Inv.fork {s : State P} (h : Inv s) (p c : P) :
    Inv { s with
      fd_table := Function.update s.fd_table c (s.fd_table p)
      live := Function.update s.live c true
      opened := Function.update s.opened c (s.opened p) } := by
  -- the tables of a process are those of the one it comes from
  have hfrom : ∀ q, ∃ r, Function.update s.fd_table c (s.fd_table p) q = s.fd_table r ∧
      Function.update s.opened c (s.opened p) q = s.opened r := by
    intro q
    by_cases hq : q = c
    · exact ⟨p, by simp [hq], by simp [hq]⟩
    · exact ⟨q, Function.update_of_ne hq _ _, Function.update_of_ne hq _ _⟩
  refine ⟨?bound, ?slot, ?descriptor, ?once, ?dead⟩
  case bound =>
    intro q fd g hg
    obtain ⟨r, htab, -⟩ := hfrom q
    exact h.bound r fd g (by rw [← htab]; exact hg)
  case slot =>
    intro q fd g hg
    obtain ⟨r, htab, hop⟩ := hfrom q
    obtain ⟨inode, ho, hslot⟩ := h.slot r fd g (by rw [← htab]; exact hg)
    exact ⟨inode, (congrFun hop fd).trans ho, hslot⟩
  case descriptor =>
    intro q fd inode ho
    obtain ⟨r, htab, hop⟩ := hfrom q
    obtain ⟨g, hg⟩ := h.descriptor r fd inode ((congrFun hop fd).symm.trans ho)
    exact ⟨g, (congrFun htab fd).trans hg⟩
  case once =>
    intro q fd1 fd2 g h1 h2
    obtain ⟨r, htab, -⟩ := hfrom q
    exact h.once r fd1 fd2 g (by rw [← htab]; exact h1) (by rw [← htab]; exact h2)
  case dead =>
    intro q fd hdead
    have hq : q ≠ c := by
      rintro rfl
      simp at hdead
    simp only [Function.update_of_ne hq] at hdead ⊢
    exact h.dead q fd hdead

omit [DecidableEq P] in
theorem Inv.move {s s' : State P} (h : Inv s) {p : P} {fd pos : Nat}
    (hrun : sysMove p fd pos s = .ok ((), s')) : Inv s' := by
  simp only [sysMove, Prog.bind_eq_ok, Prog.get_eq_ok, Prog.require_eq_ok, Prog.modify_eq_ok,
    fdLocal2Global] at hrun
  obtain ⟨g, t, ⟨_, _, ⟨rfl, rfl⟩, hg⟩, _, _, ⟨rfl, rfl⟩, _, _, ⟨-, rfl⟩, rfl⟩ := hrun
  have ht : t = s := by
    cases htab : s.fd_table p fd with
    | none =>
        rw [htab] at hg
        simp at hg
    | some g' =>
        rw [htab] at hg
        simp only [Prog.bind_eq_ok, Prog.assert_eq_ok, Prog.pure_eq_ok] at hg
        obtain ⟨_, _, ⟨-, rfl⟩, -, rfl⟩ := hg
        rfl
  subst ht
  have hinode : ∀ g', (Function.update t.file_table g { t.file_table g with fd_pos := pos } g').fd_inode =
      (t.file_table g').fd_inode := by
    intro g'
    by_cases hg' : g' = g
    · subst hg'
      rw [Function.update_self]
    · rw [Function.update_of_ne hg']
  refine ⟨h.bound, ?_, h.descriptor, h.once, h.dead⟩
  intro q fd' g' hq
  obtain ⟨inode, ho, hslot⟩ := h.slot q fd' g' hq
  exact ⟨inode, ho, (hinode g').trans hslot⟩

/-! ## Runs -/

theorem mem_descriptors {fd : Nat} (h3 : 3 ≤ fd) (hmax : fd < MAX_FILES_OPEN_PER_PROC) :
    fd ∈ List.range' 3 (MAX_FILES_OPEN_PER_PROC - 3) := List.mem_range'_1.2 ⟨h3, hmax⟩

theorem Inv.step {s s' : State P} {l : Label P} (h : Inv s) (hstep : UnsharedStep s l s') :
    Inv s' := by
  obtain ⟨hun, hstep⟩ := hstep
  cases hstep with
  | openFail hlive hrun =>
      obtain rfl | ⟨g, f, hfree, rfl⟩ := sysOpen_none hrun
      · exact h
      · exact h.fill hfree f
  | «open» hlive hrun =>
      obtain ⟨i, g, rfl, hfree, hfd, h3, hmax, rfl⟩ := sysOpen_some hrun
      exact h.install hlive hfree hfd h3 hmax
  | close hlive hrun =>
      rename_i p fd t
      have hc := Closed.of_sysClose hrun
      have hinv := h.closed hc fun fd' hmem g hg =>
        hun g (List.mem_singleton.1 hmem ▸ hg)
      have heq : (fun fd' => if fd' ∈ [fd] then none else t.opened p fd') =
          Function.update (t.opened p) fd none := by
        funext fd'
        by_cases hf : fd' = fd
        · simp [hf]
        · simp [hf]
      rwa [heq] at hinv
  | exit hlive hrun =>
      rename_i p t
      simp only [sysExit, Prog.bind_eq_ok, Prog.modify_eq_ok] at hrun
      obtain ⟨_, u, hclose, rfl⟩ := hrun
      have hc := closeAll_closed hclose
      have hinv := h.closed hc fun fd _ g hg => hun fd g hg
      -- nothing is open outside the range of the loop
      have heq : (fun fd => if fd ∈ List.range' 3 (MAX_FILES_OPEN_PER_PROC - 3) then none
          else u.opened p fd) = fun _ => none := by
        funext fd
        split
        · rfl
        · next hmem =>
          cases ho : u.opened p fd with
          | none => rfl
          | some inode =>
              rw [hc.opened] at ho
              obtain ⟨g, hg⟩ := h.descriptor p fd inode ho
              obtain ⟨h3, hmax⟩ := h.bound p fd g hg
              exact absurd (mem_descriptors h3 hmax) hmem
      rw [heq] at hinv
      refine hinv.kill fun fd => ?_
      show u.fd_table p fd = none
      rw [hc.descriptor fd]
      split
      · rfl
      · next hmem =>
        cases hg : s.fd_table p fd with
        | none => rfl
        | some g =>
            obtain ⟨h3, hmax⟩ := h.bound p fd g hg
            exact absurd (mem_descriptors h3 hmax) hmem
  | fork hlive hchild hrun =>
      rename_i p c t
      rw [sysFork_state hrun]
      exact h.fork p c
  | move hlive hrun => exact h.move hrun

/-- A step from a state with the invariant keeps every descriptor exactly when its condition holds. -/
theorem Inv.kept_iff {s s' : State P} {l : Label P} (h : Inv s) (hstep : Step s l s') :
    Kept s' ↔ Unshared s l := by
  refine ⟨fun hkept => ?_, fun hun => (h.step ⟨hun, hstep⟩).kept⟩
  cases hstep with
  | close hlive hrun =>
      intro g hg q fd' hq hg'
      exact h.not_kept (Closed.of_sysClose hrun) (List.mem_singleton.2 rfl) hg hq hg' hkept rfl rfl
        (Function.update_of_ne hq _ _) rfl
  | exit hlive hrun =>
      intro fd g hg q fd' hq hg'
      simp only [sysExit, Prog.bind_eq_ok, Prog.modify_eq_ok] at hrun
      obtain ⟨_, u, hclose, rfl⟩ := hrun
      obtain ⟨h3, hmax⟩ := h.bound _ fd g hg
      exact h.not_kept (closeAll_closed hclose) (mem_descriptors h3 hmax) hg hq hg' hkept rfl rfl
        (Function.update_of_ne hq _ _) (Function.update_of_ne hq _ _)
  | openFail _ _ => trivial
  | «open» _ _ => trivial
  | fork _ _ _ => trivial
  | move _ _ => trivial

/-- One process, `false`, and nothing open. -/
def booted : State Bool where
  file_table := fun _ => ⟨0, none⟩
  fd_table := fun _ _ => none
  live := fun p => !p
  opened := fun _ _ => none

theorem booted_initial : Initial booted := ⟨fun _ _ => rfl, fun _ _ => rfl⟩

end Descriptors

end RecoverOS
