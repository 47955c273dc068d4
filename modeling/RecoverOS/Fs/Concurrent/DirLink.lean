import Mathlib.Logic.Function.Basic
import RecoverOS.Base.Run
import RecoverOS.Fs.State

set_option autoImplicit false

/-! # Threads that run `dir_link` on one directory (`fs/dir.c`)

`dir_link` looks the name up, looks for a free slot and writes the entry. Every `inode_read` and
`inode_write` of the directory runs under its `inode_lock`, which a thread holds for one entry at a time.
A thread gives the CPU away in a disk operation and in a `lock_acquire` that finds the lock taken, and
nowhere else: after `lock_release` it goes on to its next `lock_acquire`. -/

namespace RecoverOS

namespace DirLink

/-- `MAX_FILE_NAME_LEN`. -/
abbrev MAX_FILE_NAME_LEN : Nat := 16

/-- `struct dir_entry`; `filename` is the bytes before the NUL. -/
structure DirEntry where
  filename : List UInt8
  i_no : Nat
  f_type : Nat
  deriving DecidableEq

namespace DirEntry

/-- What `create_file_or_directory` passes to `dir_link`. -/
structure Valid (dir_e : DirEntry) : Prop where
  filename : dir_e.filename ≠ []
  length : dir_e.filename.length < MAX_FILE_NAME_LEN
  f_type : dir_e.f_type ≠ FT_UNKNOWN

end DirEntry

variable {T : Type} [DecidableEq T]

/-! ## The threads -/

/-- Where a thread is in `dir_link(parent_inode, dir_e)`. -/
inductive Pc where
  | idle
  /-- At the test `off != parent_inode->i_size` of `dir_look_up`. -/
  | lookUp (dir_e : DirEntry) (off : Nat)
  /-- In the `lock_acquire` of the `inode_read` of `dir_look_up`. -/
  | lookUpWait (dir_e : DirEntry) (off : Nat)
  /-- In the `ide_read` of that `inode_read`, with the lock. -/
  | lookUpRead (dir_e : DirEntry) (off : Nat)
  /-- The name was found: in the `ide_read` of the `inode_open` of its inode. -/
  | found
  /-- At the test of the loop of `dir_link`. -/
  | scan (dir_e : DirEntry) (off : Nat)
  /-- In the `lock_acquire` of the `inode_read` of `dir_link`. -/
  | scanWait (dir_e : DirEntry) (off : Nat)
  /-- In the `ide_read` of that `inode_read`, with the lock. -/
  | scanRead (dir_e : DirEntry) (off : Nat)
  /-- `inode_write` was called for the slot at `off`. -/
  | write (dir_e : DirEntry) (off : Nat)
  /-- In its `lock_acquire`. -/
  | writeWait (dir_e : DirEntry) (off : Nat)
  /-- In a disk operation of `inode_write` before the `ide_write` of the entry, with the lock. -/
  | writing (dir_e : DirEntry) (off : Nat)
  /-- In the `ide_write` of the entry, before `i_size` is set. -/
  | stored (dir_e : DirEntry) (off : Nat)
  /-- In the disk operations of `inode_sync`. -/
  | syncing (dir_e : DirEntry) (off : Nat)

namespace Pc

/-- The phases in which a thread holds `inode_lock`. -/
def locked : Pc → Bool
  | .lookUpRead _ _ | .scanRead _ _ | .writing _ _ | .stored _ _ | .syncing _ _ => true
  | _ => false

/-- The thread has read an entry of the directory, or is reading the first one, and may still write. -/
def engaged : Pc → Bool
  | .idle | .found => false
  | .lookUp _ off | .lookUpWait _ off => off != 0
  | _ => true

theorem engaged_of_locked {pc : Pc} (h : pc.locked = true) : pc.engaged = true := by
  cases pc <;> first | rfl | cases h

end Pc

/-- The directory's blocks hold `dir off` at byte `off`, and `cpu` is the thread that is running. `linked` are
    the entries of the calls that returned `true`; no code reads it. -/
structure State (T : Type) where
  dir : Nat → DirEntry
  i_size : Nat
  inode_lock : Option T
  cpu : T
  pc : T → Pc
  linked : List DirEntry

namespace State

/-- An entry of the directory at `off`. -/
def InDir (s : State T) (off : Nat) : Prop := off % sizeofDirEntry = 0 ∧ off < s.i_size

/-- A live entry has this name. -/
def Has (s : State T) (name : List UInt8) : Prop :=
  ∃ off, s.InDir off ∧ (s.dir off).f_type ≠ FT_UNKNOWN ∧ (s.dir off).filename = name

/-- The thread is in a disk operation, waits for the lock, or is not in a call. -/
def CanSwitch (s : State T) (t : T) : Prop :=
  match s.pc t with
  | .lookUp _ _ | .scan _ _ | .write _ _ => False
  | .lookUpWait _ _ | .scanWait _ _ | .writeWait _ _ => s.inode_lock ≠ none
  | _ => True

def setPc (s : State T) (t : T) (pc : Pc) : State T := { s with pc := Function.update s.pc t pc }

@[simp] theorem setPc_self (s : State T) (t : T) (pc : Pc) : (s.setPc t pc).pc t = pc :=
  Function.update_self ..

theorem setPc_of_ne (s : State T) {t u : T} (pc : Pc) (hu : u ≠ t) : (s.setPc t pc).pc u = s.pc u :=
  Function.update_of_ne hu _ _

/-- `lock_acquire`, when the lock is free. -/
def acquire (s : State T) (t : T) : State T := { s with inode_lock := some t }

/-- `lock_release`. -/
def release (s : State T) : State T := { s with inode_lock := none }

end State

inductive Label (T : Type) where
  | call (t : T) (dir_e : DirEntry)
  | run (t : T)
  | store (t : T)
  | ret (t : T) (ok : Bool)
  | switch (t : T)

open State in
/-- What the running thread does, and the switch to another one. -/
inductive Step : State T → Label T → State T → Prop where
  | call {s t dir_e} (hcpu : s.cpu = t) (hpc : s.pc t = .idle) (hvalid : dir_e.Valid) :
      Step s (.call t dir_e) (s.setPc t (.lookUp dir_e 0))
  | lookUpTest {s t dir_e off} (hcpu : s.cpu = t) (hpc : s.pc t = .lookUp dir_e off)
      (hoff : off ≠ s.i_size) (hsize : off + sizeofDirEntry ≤ s.i_size) :
      Step s (.run t) (s.setPc t (.lookUpWait dir_e off))
  | lookUpLock {s t dir_e off} (hcpu : s.cpu = t) (hpc : s.pc t = .lookUpWait dir_e off)
      (hlock : s.inode_lock = none) :
      Step s (.run t) ((s.acquire t).setPc t (.lookUpRead dir_e off))
  | lookUpNext {s t dir_e off} (hcpu : s.cpu = t) (hpc : s.pc t = .lookUpRead dir_e off)
      (hname : dir_e.filename ≠ (s.dir off).filename) :
      Step s (.run t) (s.release.setPc t (.lookUp dir_e (off + sizeofDirEntry)))
  | lookUpFound {s t dir_e off} (hcpu : s.cpu = t) (hpc : s.pc t = .lookUpRead dir_e off)
      (hname : dir_e.filename = (s.dir off).filename) :
      Step s (.run t) (s.release.setPc t .found)
  | found {s t} (hcpu : s.cpu = t) (hpc : s.pc t = .found) : Step s (.ret t false) (s.setPc t .idle)
  | lookUpEnd {s t dir_e off} (hcpu : s.cpu = t) (hpc : s.pc t = .lookUp dir_e off)
      (hoff : off = s.i_size) : Step s (.run t) (s.setPc t (.scan dir_e 0))
  | scanTest {s t dir_e off} (hcpu : s.cpu = t) (hpc : s.pc t = .scan dir_e off)
      (hoff : off ≠ s.i_size) (hsize : off + sizeofDirEntry ≤ s.i_size) :
      Step s (.run t) (s.setPc t (.scanWait dir_e off))
  | scanLock {s t dir_e off} (hcpu : s.cpu = t) (hpc : s.pc t = .scanWait dir_e off)
      (hlock : s.inode_lock = none) :
      Step s (.run t) ((s.acquire t).setPc t (.scanRead dir_e off))
  | scanNext {s t dir_e off} (hcpu : s.cpu = t) (hpc : s.pc t = .scanRead dir_e off)
      (htype : (s.dir off).f_type ≠ FT_UNKNOWN) :
      Step s (.run t) (s.release.setPc t (.scan dir_e (off + sizeofDirEntry)))
  | scanFree {s t dir_e off} (hcpu : s.cpu = t) (hpc : s.pc t = .scanRead dir_e off)
      (htype : (s.dir off).f_type = FT_UNKNOWN) :
      Step s (.run t) (s.release.setPc t (.write dir_e off))
  | scanEnd {s t dir_e off} (hcpu : s.cpu = t) (hpc : s.pc t = .scan dir_e off)
      (hoff : off = s.i_size) : Step s (.run t) (s.setPc t (.write dir_e off))
  | tooLarge {s t dir_e off} (hcpu : s.cpu = t) (hpc : s.pc t = .write dir_e off)
      (hsize : MAX_FILE_SIZE < off + sizeofDirEntry) : Step s (.ret t false) (s.setPc t .idle)
  | writeTest {s t dir_e off} (hcpu : s.cpu = t) (hpc : s.pc t = .write dir_e off)
      (hsize : off + sizeofDirEntry ≤ MAX_FILE_SIZE) :
      Step s (.run t) (s.setPc t (.writeWait dir_e off))
  | writeLock {s t dir_e off} (hcpu : s.cpu = t) (hpc : s.pc t = .writeWait dir_e off)
      (hlock : s.inode_lock = none) :
      Step s (.run t) ((s.acquire t).setPc t (.writing dir_e off))
  | noBlock {s t dir_e off} (hcpu : s.cpu = t) (hpc : s.pc t = .writing dir_e off) :
      Step s (.ret t false) (s.release.setPc t .idle)
  | store {s t dir_e off} (hcpu : s.cpu = t) (hpc : s.pc t = .writing dir_e off) :
      Step s (.store t)
        ({ s with dir := Function.update s.dir off dir_e }.setPc t (.stored dir_e off))
  | resize {s t dir_e off} (hcpu : s.cpu = t) (hpc : s.pc t = .stored dir_e off) :
      Step s (.run t)
        ({ s with i_size := if off + sizeofDirEntry > s.i_size then off + sizeofDirEntry
                            else s.i_size }.setPc t (.syncing dir_e off))
  | synced {s t dir_e off} (hcpu : s.cpu = t) (hpc : s.pc t = .syncing dir_e off) :
      Step s (.ret t true) ({ s.release with linked := dir_e :: s.linked }.setPc t .idle)
  | switch {s t} (hcan : s.CanSwitch s.cpu) : Step s (.switch t) { s with cpu := t }

/-- No call is under way, and no two live entries have the same name. A directory is never empty: `.` and
    `..` are written when it is made, and `i_size` only grows. -/
structure Initial (s : State T) : Prop where
  aligned : s.i_size % sizeofDirEntry = 0
  nonempty : 0 < s.i_size
  unique : ∀ off off', s.InDir off → s.InDir off' → (s.dir off).f_type ≠ FT_UNKNOWN →
    (s.dir off').f_type ≠ FT_UNKNOWN → (s.dir off).filename = (s.dir off').filename → off = off'
  lock : s.inode_lock = none
  pc : ∀ t, s.pc t = .idle
  linked : s.linked = []

/-- Every call that returned `true` has its entry in the directory, and no name is there twice. -/
structure Linked (s : State T) : Prop where
  present : ∀ dir_e ∈ s.linked, ∃ off, s.InDir off ∧ s.dir off = dir_e
  unique : ∀ off off', s.InDir off → s.InDir off' → (s.dir off).f_type ≠ FT_UNKNOWN →
    (s.dir off').f_type ≠ FT_UNKNOWN → (s.dir off).filename = (s.dir off').filename → off = off'

/-! ## The invariant -/

/-- No entry before `off` has the name. -/
def NoneBefore (s : State T) (dir_e : DirEntry) (off : Nat) : Prop :=
  ∀ off' < off, s.InDir off' → (s.dir off').filename ≠ dir_e.filename

/-- The slot is free or the end of the directory, and no live entry has the name. -/
def Fresh (s : State T) (dir_e : DirEntry) (off : Nat) : Prop :=
  (off = s.i_size ∨ (s.dir off).f_type = FT_UNKNOWN) ∧ ¬ s.Has dir_e.filename

/-- What a thread may rely on where it is. -/
def Pc.Good (s : State T) : Pc → Prop
  | .idle | .found => True
  | .lookUp dir_e off =>
      dir_e.Valid ∧ off % sizeofDirEntry = 0 ∧ off ≤ s.i_size ∧ NoneBefore s dir_e off
  | .lookUpWait dir_e off | .lookUpRead dir_e off =>
      dir_e.Valid ∧ off % sizeofDirEntry = 0 ∧ off + sizeofDirEntry ≤ s.i_size ∧ NoneBefore s dir_e off
  | .scan dir_e off =>
      dir_e.Valid ∧ off % sizeofDirEntry = 0 ∧ off ≤ s.i_size ∧ ¬ s.Has dir_e.filename
  | .scanWait dir_e off | .scanRead dir_e off =>
      dir_e.Valid ∧ off % sizeofDirEntry = 0 ∧ off + sizeofDirEntry ≤ s.i_size ∧ ¬ s.Has dir_e.filename
  | .write dir_e off | .writeWait dir_e off | .writing dir_e off =>
      dir_e.Valid ∧ off % sizeofDirEntry = 0 ∧ off ≤ s.i_size ∧ Fresh s dir_e off
  | .stored dir_e off =>
      dir_e.Valid ∧ off % sizeofDirEntry = 0 ∧ off ≤ s.i_size ∧ s.dir off = dir_e ∧
        (off = s.i_size → ¬ s.Has dir_e.filename)
  | .syncing dir_e off => dir_e.Valid ∧ s.InDir off ∧ s.dir off = dir_e

/-- Only one thread is between its first look at the directory and its return, and while it is not running
    it holds the lock. -/
structure Alone (s : State T) : Prop where
  holder : ∀ t, (s.pc t).locked = true ↔ s.inode_lock = some t
  alone : ∀ t u, (s.pc t).engaged = true → (s.pc u).engaged = true → t = u
  parked : ∀ t, t ≠ s.cpu → (s.pc t).engaged = true → (s.pc t).locked = true

structure Inv (s : State T) : Prop extends Linked s, Alone s where
  live : ∀ dir_e ∈ s.linked, dir_e.f_type ≠ FT_UNKNOWN
  aligned : s.i_size % sizeofDirEntry = 0
  nonempty : 0 < s.i_size
  good : ∀ t, (s.pc t).Good s

omit [DecidableEq T] in
theorem Initial.inv {s : State T} (h : Initial s) : Inv s where
  present := fun dir_e hmem => by
    rw [h.linked] at hmem
    cases hmem
  unique := h.unique
  live := fun dir_e hmem => by
    rw [h.linked] at hmem
    cases hmem
  aligned := h.aligned
  nonempty := h.nonempty
  good := fun t => by
    rw [h.pc t]
    trivial
  holder := fun t => by
    rw [h.pc t, h.lock]
    exact iff_of_false nofun nofun
  alone := fun t u ht => by
    rw [h.pc t] at ht
    cases ht
  parked := fun t _ ht => by
    rw [h.pc t] at ht
    cases ht

section Alone

variable {s s' : State T} {t u : T} {pc : Pc}

omit [DecidableEq T] in
/-- No other thread is engaged. -/
theorem Alone.others (h : Alone s) (ht : (s.pc t).engaged = true) (hu : u ≠ t) :
    (s.pc u).engaged = false := by
  cases hl : (s.pc u).engaged with
  | false => rfl
  | true => exact absurd (h.alone u t hl ht) hu

omit [DecidableEq T] in
/-- With the lock free, nobody but the running thread is engaged. -/
theorem Alone.others_free (h : Alone s) (hlock : s.inode_lock = none) (hu : u ≠ s.cpu) :
    (s.pc u).engaged = false := by
  cases hl : (s.pc u).engaged with
  | false => rfl
  | true =>
      have hheld := (h.holder u).1 (h.parked u hu hl)
      rw [hlock] at hheld
      cases hheld

theorem Alone.goto (h : Alone s) (hcpu : s.cpu = t) (hcpu' : s'.cpu = s.cpu)
    (hpc : s'.pc = Function.update s.pc t pc) (hself : pc.locked = true ↔ s'.inode_lock = some t)
    (hothers : ∀ u, u ≠ t → (s.inode_lock = some u ↔ s'.inode_lock = some u))
    (halone : pc.engaged = true → ∀ u, u ≠ t → (s.pc u).engaged = false) : Alone s' where
  holder := fun u => by
    rw [hpc]
    by_cases hu : u = t
    · rw [hu, Function.update_self]
      exact hself
    · rw [Function.update_of_ne hu]
      exact (h.holder u).trans (hothers u hu)
  alone := fun u v hu hv => by
    rw [hpc] at hu hv
    by_cases hut : u = t
    · rw [hut, Function.update_self] at hu
      by_cases hvt : v = t
      · rw [hut, hvt]
      · rw [Function.update_of_ne hvt, halone hu v hvt] at hv
        cases hv
    · rw [Function.update_of_ne hut] at hu
      by_cases hvt : v = t
      · rw [hvt, Function.update_self] at hv
        rw [halone hv u hut] at hu
        cases hu
      · rw [Function.update_of_ne hvt] at hv
        exact h.alone u v hu hv
  parked := fun u hu => by
    rw [hcpu', hcpu] at hu
    rw [hpc, Function.update_of_ne hu]
    exact h.parked u (hcpu ▸ hu)

omit [DecidableEq T] in
/-- The running thread gives the CPU away: if it is engaged it holds the lock. -/
theorem Alone.switch (h : Alone s) (hcan : s.CanSwitch s.cpu) (u : T) : Alone { s with cpu := u } where
  holder := h.holder
  alone := h.alone
  parked := fun v _ hv => by
    by_cases hcpu : v = s.cpu
    · subst hcpu
      -- a thread that waits for the lock waits for another one that is engaged
      have hwait : ∀ w, s.inode_lock = some w → w = s.cpu := fun w hw =>
        h.alone w s.cpu (Pc.engaged_of_locked ((h.holder w).2 hw)) hv
      change (s.pc s.cpu).engaged = true at hv
      show (s.pc s.cpu).locked = true
      have hheld : s.inode_lock ≠ none → (s.pc s.cpu).locked = true := by
        intro hne
        obtain ⟨w, hw⟩ := Option.ne_none_iff_exists'.1 hne
        exact (h.holder s.cpu).2 (hwait w hw ▸ hw)
      unfold State.CanSwitch at hcan
      cases hpc : s.pc s.cpu with
      | idle => rw [hpc] at hv; cases hv
      | found => rw [hpc] at hv; cases hv
      | lookUp dir_e off => rw [hpc] at hcan; exact hcan.elim
      | scan dir_e off => rw [hpc] at hcan; exact hcan.elim
      | write dir_e off => rw [hpc] at hcan; exact hcan.elim
      | lookUpWait dir_e off => rw [hpc] at hcan hheld; exact hheld hcan
      | scanWait dir_e off => rw [hpc] at hcan hheld; exact hheld hcan
      | writeWait dir_e off => rw [hpc] at hcan hheld; exact hheld hcan
      | lookUpRead dir_e off => rfl
      | scanRead dir_e off => rfl
      | writing dir_e off => rfl
      | stored dir_e off => rfl
      | syncing dir_e off => rfl
    · exact h.parked v hcpu hv

end Alone

section Good

variable {s s' : State T} {pc : Pc}

omit [DecidableEq T] in
/-- A thread that has not looked at the directory relies on nothing but the size. -/
theorem Pc.Good.mono (h : pc.Good s) (hpc : pc.engaged = false) (hsize : s.i_size ≤ s'.i_size) :
    pc.Good s' := by
  cases pc with
  | idle => trivial
  | found => trivial
  | lookUp dir_e off =>
      obtain rfl : off = 0 := by simpa [engaged] using hpc
      exact ⟨h.1, h.2.1, Nat.zero_le _, fun _ hlt => absurd hlt (Nat.not_lt_zero _)⟩
  | lookUpWait dir_e off =>
      obtain rfl : off = 0 := by simpa [engaged] using hpc
      exact ⟨h.1, h.2.1, Nat.le_trans h.2.2.1 hsize, fun _ hlt => absurd hlt (Nat.not_lt_zero _)⟩
  | lookUpRead dir_e off => cases hpc
  | scan dir_e off => cases hpc
  | scanWait dir_e off => cases hpc
  | scanRead dir_e off => cases hpc
  | write dir_e off => cases hpc
  | writeWait dir_e off => cases hpc
  | writing dir_e off => cases hpc
  | stored dir_e off => cases hpc
  | syncing dir_e off => cases hpc

omit [DecidableEq T] in
theorem Pc.Good.congr (h : pc.Good s) (hdir : s'.dir = s.dir) (hsize : s'.i_size = s.i_size) :
    pc.Good s' := by
  obtain ⟨dir, i_size, lock, cpu, pcs, linked⟩ := s
  obtain ⟨dir', i_size', lock', cpu', pcs', linked'⟩ := s'
  obtain rfl : dir' = dir := hdir
  obtain rfl : i_size' = i_size := hsize
  cases pc <;> exact h

end Good

section Goto

variable {s : State T} {t : T} {pc : Pc} {dir_e : DirEntry} {off : Nat}

omit [DecidableEq T] in
theorem Inv.good_of (h : Inv s) (hpc : s.pc t = pc) : pc.Good s := hpc ▸ h.good t

/-- The running thread goes on without a change to the directory. -/
theorem Inv.goto (h : Inv s) {lock : Option T} (hcpu : s.cpu = t) (hgood : pc.Good s)
    (hself : pc.locked = true ↔ lock = some t)
    (hothers : ∀ u, u ≠ t → (s.inode_lock = some u ↔ lock = some u))
    (halone : pc.engaged = true → ∀ u, u ≠ t → (s.pc u).engaged = false) :
    Inv ({ s with inode_lock := lock }.setPc t pc) where
  toAlone := h.toAlone.goto hcpu rfl rfl hself hothers halone
  present := h.present
  unique := h.unique
  live := h.live
  aligned := h.aligned
  nonempty := h.nonempty
  good := fun u => by
    refine Pc.Good.congr (s := s) ?_ rfl rfl
    show (Function.update s.pc t pc u).Good s
    by_cases hu : u = t
    · rw [hu, Function.update_self]
      exact hgood
    · rw [Function.update_of_ne hu]
      exact h.good u

/-- The lock stays with whoever has it. -/
theorem Inv.goto_free (h : Inv s) (hcpu : s.cpu = t) (hgood : pc.Good s)
    (hlocked : pc.locked = (s.pc t).locked) (hengaged : pc.engaged = true → (s.pc t).engaged = true) :
    Inv (s.setPc t pc) :=
  h.goto hcpu hgood (hlocked ▸ h.holder t) (fun _ _ => Iff.rfl) fun he _ hu => h.others (hengaged he) hu

theorem Inv.goto_acquire (h : Inv s) (hcpu : s.cpu = t) (hgood : pc.Good s) (hlocked : pc.locked = true)
    (hlock : s.inode_lock = none) : Inv ((s.acquire t).setPc t pc) := by
  refine h.goto hcpu hgood (iff_of_true hlocked rfl) (fun u hu => ?_) fun _ u hu =>
    h.others_free hlock (hcpu ▸ hu)
  rw [hlock]
  exact iff_of_false nofun fun heq => hu (Option.some.inj heq).symm

theorem Inv.goto_release (h : Inv s) (hcpu : s.cpu = t) (hgood : pc.Good s)
    (hpc : (s.pc t).locked = true) (hlocked : pc.locked = false) : Inv (s.release.setPc t pc) := by
  refine h.goto hcpu hgood (iff_of_false (by rw [hlocked]; nofun) nofun) (fun u hu => ?_) fun _ u hu =>
    h.others (Pc.engaged_of_locked hpc) hu
  rw [(h.holder t).1 hpc]
  exact iff_of_false (fun heq => hu (Option.some.inj heq).symm) nofun

/-- The thread that has the lock changes the directory, and keeps the lock. -/
theorem Inv.change (h : Inv s) (dir : Nat → DirEntry) (i_size : Nat) (hcpu : s.cpu = t)
    (hpc : (s.pc t).locked = true) (hlocked : pc.locked = true) (hgrow : s.i_size ≤ i_size)
    (haligned : i_size % sizeofDirEntry = 0)
    (hgood : pc.Good ({ s with dir := dir, i_size := i_size }.setPc t pc))
    (hlinked : Linked ({ s with dir := dir, i_size := i_size }.setPc t pc)) :
    Inv ({ s with dir := dir, i_size := i_size }.setPc t pc) where
  toLinked := hlinked
  toAlone := h.toAlone.goto hcpu rfl rfl (iff_of_true hlocked ((h.holder t).1 hpc)) (fun _ _ => Iff.rfl)
    fun _ _ hu => h.others (Pc.engaged_of_locked hpc) hu
  live := h.live
  aligned := haligned
  nonempty := Nat.lt_of_lt_of_le h.nonempty hgrow
  good := fun u => by
    show Pc.Good _ (Function.update s.pc t pc u)
    by_cases hu : u = t
    · rw [hu, Function.update_self]
      exact hgood
    · rw [Function.update_of_ne hu]
      exact (h.good u).mono (h.others (Pc.engaged_of_locked hpc) hu) hgrow

end Goto

/-! ## The steps -/

section Step

variable {s s' : State T} {t : T} {dir_e : DirEntry} {off : Nat}

/-- The `ide_write` of an entry. -/
theorem Inv.store (h : Inv s) (hcpu : s.cpu = t) (hpc : s.pc t = .writing dir_e off) :
    Inv ({ s with dir := Function.update s.dir off dir_e }.setPc t (.stored dir_e off)) := by
  obtain ⟨hvalid, hal, hle, hslot, hnew⟩ := h.good_of hpc
  have hlocked : (s.pc t).locked = true := by rw [hpc]; rfl
  -- the name of the new entry is not that of another live entry
  have hother : ∀ off', s.InDir off' → (s.dir off').f_type ≠ FT_UNKNOWN →
      (s.dir off').filename ≠ dir_e.filename :=
    fun off' hin hlive heq => hnew ⟨off', hin, hlive, heq⟩
  refine h.change (Function.update s.dir off dir_e) s.i_size hcpu hlocked rfl
    (Nat.le_refl _) h.aligned ⟨hvalid, hal, hle, Function.update_self .., ?fresh⟩ ⟨?present, ?unique⟩
  case fresh =>
    rintro heq ⟨off', hin, hlive, hname⟩
    have hin' : s.InDir off' := hin
    have hne : off' ≠ off := by
      rintro rfl
      exact absurd hin'.2 (heq ▸ Nat.lt_irrefl _)
    simp only [State.setPc, Function.update_of_ne hne] at hlive hname
    exact hother off' hin' hlive hname
  case present =>
    intro e hmem
    obtain ⟨off', hin, he⟩ := h.present e hmem
    have hne : off' ≠ off := by
      rintro rfl
      obtain heq | hfree := hslot
      · exact absurd hin.2 (by omega)
      · rw [he] at hfree
        exact h.live e hmem hfree
    exact ⟨off', hin, (Function.update_of_ne hne _ _).trans he⟩
  case unique =>
    intro off1 off2 h1 h2 hlive1 hlive2 hname
    have hin1 : s.InDir off1 := h1
    have hin2 : s.InDir off2 := h2
    simp only [State.setPc] at hlive1 hlive2 hname
    by_cases he1 : off1 = off
    · by_cases he2 : off2 = off
      · rw [he1, he2]
      · rw [Function.update_of_ne he2] at hlive2 hname
        rw [he1, Function.update_self] at hname
        exact absurd hname.symm (hother off2 hin2 hlive2)
    · rw [Function.update_of_ne he1] at hlive1 hname
      by_cases he2 : off2 = off
      · rw [he2, Function.update_self] at hname
        exact absurd hname (hother off1 hin1 hlive1)
      · rw [Function.update_of_ne he2] at hlive2 hname
        exact h.unique off1 off2 hin1 hin2 hlive1 hlive2 hname

/-- The new size takes the entry in. -/
theorem Inv.resize (h : Inv s) (hcpu : s.cpu = t) (hpc : s.pc t = .stored dir_e off) :
    Inv ({ s with i_size := if off + sizeofDirEntry > s.i_size then off + sizeofDirEntry
                            else s.i_size }.setPc t (.syncing dir_e off)) := by
  obtain ⟨hvalid, hal, hle, hdir, hend⟩ := h.good_of hpc
  have hlocked : (s.pc t).locked = true := by rw [hpc]; rfl
  have haligned := h.aligned
  generalize hsize : (if off + sizeofDirEntry > s.i_size then off + sizeofDirEntry else s.i_size) = i_size
  have hgrow : s.i_size ≤ i_size ∧ i_size % sizeofDirEntry = 0 ∧ off < i_size := by
    rw [← hsize]
    simp only [sizeofDirEntry] at *
    split <;> omega
  -- an entry of the longer directory is an old one, or the one at its end
  have hold : ∀ off', off' % sizeofDirEntry = 0 → off' < i_size →
      s.InDir off' ∨ off' = off ∧ off = s.i_size := by
    intro off' hal' hlt
    rw [← hsize] at hlt
    unfold State.InDir
    simp only [sizeofDirEntry] at *
    split at hlt <;> omega
  refine h.change s.dir i_size hcpu hlocked rfl hgrow.1 hgrow.2.1
    ⟨hvalid, ⟨hal, hgrow.2.2⟩, hdir⟩ ⟨fun e hmem => ?present, fun off1 off2 h1 h2 hlive1 hlive2 hname => ?unique⟩
  case present =>
    obtain ⟨off', hin, he⟩ := h.present e hmem
    exact ⟨off', ⟨hin.1, Nat.lt_of_lt_of_le hin.2 hgrow.1⟩, he⟩
  case unique =>
    obtain hin1 | ⟨rfl, heq⟩ := hold off1 h1.1 h1.2
    · obtain hin2 | ⟨rfl, heq⟩ := hold off2 h2.1 h2.2
      · exact h.unique off1 off2 hin1 hin2 hlive1 hlive2 hname
      · exact absurd ⟨off1, hin1, hlive1, hname.trans (congrArg _ hdir)⟩ (hend heq)
    · obtain hin2 | ⟨h2eq, -⟩ := hold off2 h2.1 h2.2
      · exact absurd ⟨off2, hin2, hlive2, hname.symm.trans (congrArg _ hdir)⟩ (hend heq)
      · exact h2eq.symm

/-- A call that returns `true` leaves its entry behind. -/
theorem Inv.synced (h : Inv s) (hcpu : s.cpu = t) (hpc : s.pc t = .syncing dir_e off) :
    Inv ({ s.release with linked := dir_e :: s.linked }.setPc t .idle) := by
  obtain ⟨hvalid, hin, hdir⟩ := h.good_of hpc
  have hlocked : (s.pc t).locked = true := by rw [hpc]; rfl
  have hreleased : Inv (s.release.setPc t .idle) := h.goto_release hcpu trivial hlocked rfl
  refine ⟨⟨?_, hreleased.unique⟩, hreleased.toAlone.goto (t := t) hcpu rfl
    (show _ = Function.update _ t Pc.idle from (Function.update_idem ..).symm) ?_
    (fun _ _ => Iff.rfl) nofun, ?_, hreleased.aligned, hreleased.nonempty, fun u => (hreleased.good u).congr rfl rfl⟩
  · intro e hmem
    obtain rfl | hmem := List.mem_cons.1 hmem
    · exact ⟨off, hin, hdir⟩
    · exact h.present e hmem
  · exact iff_of_false nofun nofun
  · intro e hmem
    obtain rfl | hmem := List.mem_cons.1 hmem
    · exact hvalid.f_type
    · exact h.live e hmem

omit [DecidableEq T] in
/-- A look-up that has come to the end has found no entry with the name. -/
theorem NoneBefore.not_has (h : NoneBefore s dir_e off) (hoff : off = s.i_size) :
    ¬ s.Has dir_e.filename := by
  rintro ⟨off', hin, -, hname⟩
  exact h off' (hoff ▸ hin.2) hin hname

omit [DecidableEq T] in
/-- One more entry does not have the name. -/
theorem NoneBefore.next (h : NoneBefore s dir_e off) (hal : off % sizeofDirEntry = 0)
    (hname : dir_e.filename ≠ (s.dir off).filename) : NoneBefore s dir_e (off + sizeofDirEntry) := by
  intro off' hlt hin
  by_cases heq : off' = off
  · rw [heq]
    exact hname.symm
  · have hal' := hin.1
    refine h off' ?_ hin
    simp only [sizeofDirEntry] at hal hal' hlt
    omega

theorem Inv.step {l : Label T} (h : Inv s) (hstep : Step s l s') : Inv s' := by
  cases hstep with
  | call hcpu hpc hvalid =>
      exact h.goto_free hcpu ⟨hvalid, rfl, Nat.zero_le _, fun _ hlt => absurd hlt (Nat.not_lt_zero _)⟩
        (hpc ▸ rfl) nofun
  | lookUpTest hcpu hpc hoff hsize =>
      have hg := h.good_of hpc
      exact h.goto_free hcpu ⟨hg.1, hg.2.1, hsize, hg.2.2.2⟩ (hpc ▸ rfl) (hpc ▸ id)
  | lookUpLock hcpu hpc hlock =>
      have hg := h.good_of hpc
      exact h.goto_acquire hcpu hg rfl hlock
  | lookUpNext hcpu hpc hname =>
      have hg := h.good_of hpc
      exact h.goto_release hcpu ⟨hg.1, (Nat.add_mod_right _ _).trans hg.2.1, hg.2.2.1,
        hg.2.2.2.next hg.2.1 hname⟩ (hpc ▸ rfl) rfl
  | lookUpFound hcpu hpc hname => exact h.goto_release hcpu trivial (hpc ▸ rfl) rfl
  | found hcpu hpc => exact h.goto_free hcpu trivial (hpc ▸ rfl) nofun
  | lookUpEnd hcpu hpc hoff =>
      have hg := h.good_of hpc
      have hne : (_ != 0) = true := bne_iff_ne.2 (hoff ▸ Nat.ne_of_gt h.nonempty)
      exact h.goto_free hcpu ⟨hg.1, rfl, Nat.zero_le _, hg.2.2.2.not_has hoff⟩ (hpc ▸ rfl)
        fun _ => hpc ▸ hne
  | scanTest hcpu hpc hoff hsize =>
      have hg := h.good_of hpc
      exact h.goto_free hcpu ⟨hg.1, hg.2.1, hsize, hg.2.2.2⟩ (hpc ▸ rfl) fun _ => hpc ▸ rfl
  | scanLock hcpu hpc hlock =>
      have hg := h.good_of hpc
      exact h.goto_acquire hcpu hg rfl hlock
  | scanNext hcpu hpc htype =>
      have hg := h.good_of hpc
      exact h.goto_release hcpu ⟨hg.1, (Nat.add_mod_right _ _).trans hg.2.1, hg.2.2.1, hg.2.2.2⟩
        (hpc ▸ rfl) rfl
  | scanFree hcpu hpc htype =>
      have hg := h.good_of hpc
      exact h.goto_release hcpu ⟨hg.1, hg.2.1, Nat.le_of_add_right_le hg.2.2.1, .inr htype, hg.2.2.2⟩
        (hpc ▸ rfl) rfl
  | scanEnd hcpu hpc hoff =>
      have hg := h.good_of hpc
      exact h.goto_free hcpu ⟨hg.1, hg.2.1, hg.2.2.1, .inl hoff, hg.2.2.2⟩ (hpc ▸ rfl) fun _ => hpc ▸ rfl
  | tooLarge hcpu hpc hsize => exact h.goto_free hcpu trivial (hpc ▸ rfl) nofun
  | writeTest hcpu hpc hsize =>
      have hg := h.good_of hpc
      exact h.goto_free hcpu hg (hpc ▸ rfl) fun _ => hpc ▸ rfl
  | writeLock hcpu hpc hlock =>
      have hg := h.good_of hpc
      exact h.goto_acquire hcpu hg rfl hlock
  | noBlock hcpu hpc => exact h.goto_release hcpu trivial (hpc ▸ rfl) rfl
  | store hcpu hpc => exact h.store hcpu hpc
  | resize hcpu hpc => exact h.resize hcpu hpc
  | synced hcpu hpc => exact h.synced hcpu hpc
  | switch hcan =>
      exact ⟨⟨h.present, h.unique⟩, h.toAlone.switch hcan _, h.live, h.aligned, h.nonempty,
        fun u => (h.good u).congr rfl rfl⟩

end Step

/-- What a thread changes that keeps the CPU and has not come to its `ide_write`. -/
structure Unchanged (t : T) (s s' : State T) : Prop where
  dir : s'.dir = s.dir
  i_size : s'.i_size = s.i_size
  inode_lock : s'.inode_lock = s.inode_lock
  cpu : s'.cpu = s.cpu
  linked : s'.linked = s.linked
  pc : ∀ u, u ≠ t → s'.pc u = s.pc u

section Solo

variable {s : State T} {t : T} {dir_e : DirEntry} {off n : Nat}

/-- A call comes to its first `lock_acquire`. -/
theorem exists_waiting (hcpu : s.cpu = t) (hpc : s.pc t = .idle) (hvalid : dir_e.Valid)
    (hsize : sizeofDirEntry ≤ s.i_size) :
    ∃ s', Run Step s [.call t dir_e, .run t] s' ∧ s'.pc t = .lookUpWait dir_e 0 ∧ Unchanged t s s' := by
  have hcall : Step s (.call t dir_e) (s.setPc t (.lookUp dir_e 0)) := .call hcpu hpc hvalid
  have hlt : 0 < s.i_size := Nat.lt_of_lt_of_le (by decide) hsize
  have htest : Step (s.setPc t (.lookUp dir_e 0)) (.run t) _ :=
    .lookUpTest hcpu (State.setPc_self ..) hlt.ne (by rw [Nat.zero_add]; exact hsize)
  refine ⟨_, (Run.single hcall).snoc htest, State.setPc_self .., rfl, rfl, rfl, rfl, rfl, fun u hu => ?_⟩
  simp [State.setPc, Function.update_of_ne hu]

theorem exists_lookUp (hcpu : s.cpu = t) (hpc : s.pc t = .lookUp dir_e off) (hlock : s.inode_lock = none)
    (hsize : s.i_size = off + sizeofDirEntry * n)
    (hno : ∀ k < n, dir_e.filename ≠ (s.dir (off + sizeofDirEntry * k)).filename) :
    ∃ ls s', Run Step s ls s' ∧ s'.pc t = .scan dir_e 0 ∧ Unchanged t s s' := by
  induction n generalizing s off with
  | zero =>
      exact ⟨_, _, .single (.lookUpEnd hcpu hpc (by omega)), State.setPc_self .., rfl, rfl, rfl, rfl, rfl,
        fun u hu => Function.update_of_ne hu _ _⟩
  | succ n ih =>
      have htest : Step s (.run t) (s.setPc t (.lookUpWait dir_e off)) :=
        .lookUpTest hcpu hpc (by simp only [sizeofDirEntry] at hsize; omega)
          (by simp only [sizeofDirEntry] at hsize ⊢; omega)
      have hread : Step (s.setPc t (.lookUpWait dir_e off)) (.run t) _ :=
        .lookUpLock hcpu (State.setPc_self ..) hlock
      have hnext : Step (((s.setPc t (.lookUpWait dir_e off)).acquire t).setPc t (.lookUpRead dir_e off))
          (.run t) _ := .lookUpNext hcpu (State.setPc_self ..) (hno 0 (Nat.succ_pos n))
      obtain ⟨ls, s', hrun, hpc', ha⟩ := ih
        (s := (((s.setPc t (.lookUpWait dir_e off)).acquire t).setPc t (.lookUpRead dir_e off)).release.setPc t
          (.lookUp dir_e (off + sizeofDirEntry))) hcpu (State.setPc_self ..) rfl
        (by show s.i_size = _; rw [hsize, Nat.mul_succ]; omega)
        (fun k hk => by
          have hk' := hno (k + 1) (Nat.succ_lt_succ hk)
          rwa [Nat.mul_succ, Nat.add_comm (sizeofDirEntry * k), ← Nat.add_assoc] at hk')
      refine ⟨_, s', .cons htest (.cons hread (.cons hnext hrun)), hpc', ha.dir, ha.i_size,
        ha.inode_lock.trans hlock.symm, ha.cpu, ha.linked, fun u hu => (ha.pc u hu).trans ?_⟩
      simp [State.setPc, State.acquire, State.release, Function.update_of_ne hu]

theorem exists_scan (hcpu : s.cpu = t) (hpc : s.pc t = .scan dir_e off) (hlock : s.inode_lock = none)
    (hsize : s.i_size = off + sizeofDirEntry * n)
    (hfull : ∀ k < n, (s.dir (off + sizeofDirEntry * k)).f_type ≠ FT_UNKNOWN) :
    ∃ ls s', Run Step s ls s' ∧ s'.pc t = .write dir_e s.i_size ∧ Unchanged t s s' := by
  induction n generalizing s off with
  | zero =>
      have hend : off = s.i_size := by omega
      exact ⟨_, _, .single (.scanEnd hcpu hpc hend), hend ▸ State.setPc_self .., rfl, rfl, rfl, rfl, rfl,
        fun u hu => Function.update_of_ne hu _ _⟩
  | succ n ih =>
      have htest : Step s (.run t) (s.setPc t (.scanWait dir_e off)) :=
        .scanTest hcpu hpc (by simp only [sizeofDirEntry] at hsize; omega)
          (by simp only [sizeofDirEntry] at hsize ⊢; omega)
      have hread : Step (s.setPc t (.scanWait dir_e off)) (.run t) _ :=
        .scanLock hcpu (State.setPc_self ..) hlock
      have hnext : Step (((s.setPc t (.scanWait dir_e off)).acquire t).setPc t (.scanRead dir_e off))
          (.run t) _ := .scanNext hcpu (State.setPc_self ..) (hfull 0 (Nat.succ_pos n))
      obtain ⟨ls, s', hrun, hpc', ha⟩ := ih
        (s := (((s.setPc t (.scanWait dir_e off)).acquire t).setPc t (.scanRead dir_e off)).release.setPc t
          (.scan dir_e (off + sizeofDirEntry))) hcpu (State.setPc_self ..) rfl
        (by show s.i_size = _; rw [hsize, Nat.mul_succ]; omega)
        (fun k hk => by
          have hk' := hfull (k + 1) (Nat.succ_lt_succ hk)
          rwa [Nat.mul_succ, Nat.add_comm (sizeofDirEntry * k), ← Nat.add_assoc] at hk')
      refine ⟨_, s', .cons htest (.cons hread (.cons hnext hrun)), hpc', ha.dir, ha.i_size,
        ha.inode_lock.trans hlock.symm, ha.cpu, ha.linked, fun u hu => (ha.pc u hu).trans ?_⟩
      simp [State.setPc, State.acquire, State.release, Function.update_of_ne hu]

/-- In a full directory without the name, a call that has the lock for its first entry links its own at the
    end. -/
theorem exists_linked (hcpu : s.cpu = t) (hpc : s.pc t = .lookUpRead dir_e 0)
    (hsize : s.i_size = sizeofDirEntry * (n + 1))
    (hno : ∀ k < n + 1, dir_e.filename ≠ (s.dir (sizeofDirEntry * k)).filename)
    (hfull : ∀ k < n + 1, (s.dir (sizeofDirEntry * k)).f_type ≠ FT_UNKNOWN)
    (hmax : s.i_size + sizeofDirEntry ≤ MAX_FILE_SIZE) :
    ∃ ls s', Run Step s ls s' ∧ s'.pc t = .idle ∧ (∀ u, u ≠ t → s'.pc u = s.pc u) ∧ s'.inode_lock = none ∧
      s'.cpu = s.cpu ∧ s'.linked = dir_e :: s.linked ∧ s'.dir = Function.update s.dir s.i_size dir_e ∧
      s'.i_size = s.i_size + sizeofDirEntry := by
  have hnext : Step s (.run t) (s.release.setPc t (.lookUp dir_e (0 + sizeofDirEntry))) :=
    .lookUpNext hcpu hpc (hno 0 (Nat.succ_pos n))
  obtain ⟨ls1, s1, hrun1, hpc1, ha1⟩ := exists_lookUp (n := n)
    (s := s.release.setPc t (.lookUp dir_e (0 + sizeofDirEntry))) hcpu (State.setPc_self ..) rfl
    (by show s.i_size = _; rw [hsize, Nat.mul_succ]; omega)
    fun k hk => by
      have hk' := hno (k + 1) (Nat.succ_lt_succ hk)
      rwa [Nat.mul_succ, Nat.add_comm (sizeofDirEntry * k), ← Nat.zero_add sizeofDirEntry] at hk'
  obtain ⟨ls2, s2, hrun2, hpc2, ha2⟩ := exists_scan (n := n + 1) (ha1.cpu.trans hcpu) hpc1 ha1.inode_lock
    (by rw [Nat.zero_add, ha1.i_size]; exact hsize)
    fun k hk => by rw [Nat.zero_add, ha1.dir]; exact hfull k hk
  have hsize2 : s2.i_size = s.i_size := ha2.i_size.trans ha1.i_size
  have hcpu2 : s2.cpu = t := (ha2.cpu.trans ha1.cpu).trans hcpu
  have hpc2 : s2.pc t = .write dir_e s.i_size := hpc2.trans (by rw [ha1.i_size]; rfl)
  have htest : Step s2 (.run t) (s2.setPc t (.writeWait dir_e s.i_size)) := .writeTest hcpu2 hpc2 hmax
  have hrun := (Run.single htest).snoc (.writeLock hcpu2 (State.setPc_self ..) (ha2.inode_lock.trans ha1.inode_lock))
  have hrun' := (hrun.snoc (.store hcpu2 (State.setPc_self ..))).snoc (.resize hcpu2 (State.setPc_self ..))
  refine ⟨_, _, .cons hnext (hrun1.append (hrun2.append (hrun'.snoc (.synced hcpu2 (State.setPc_self ..))))),
    State.setPc_self .., fun u hu => ?_, rfl, ha2.cpu.trans ha1.cpu, ?_, ?_, ?_⟩
  · have hpcu := (ha2.pc u hu).trans (ha1.pc u hu)
    simp [State.setPc, State.acquire, State.release, Function.update_of_ne hu] at hpcu ⊢
    exact hpcu
  · show dir_e :: s2.linked = _
    rw [ha2.linked, ha1.linked]
    rfl
  · show Function.update s2.dir s.i_size dir_e = _
    rw [ha2.dir, ha1.dir]
    rfl
  · show (if s.i_size + sizeofDirEntry > s2.i_size then _ else _) = _
    rw [if_pos (by rw [hsize2]; simp only [sizeofDirEntry]; omega)]

end Solo

/-! ## Two threads -/

/-- The directory as `partition_format` leaves it: `.` and `..`. -/
def fresh : State Bool where
  dir := fun off => if off = 0 then ⟨[46], 0, FT_DIRECTORY⟩
    else if off = 32 then ⟨[46, 46], 0, FT_DIRECTORY⟩ else ⟨[], 0, FT_UNKNOWN⟩
  i_size := 64
  inode_lock := none
  cpu := false
  pc := fun _ => .idle
  linked := []

/-- The entries of the files `a` and `b`. -/
def entry : Bool → DirEntry
  | false => ⟨[97], 1, FT_REGULAR⟩
  | true => ⟨[98], 2, FT_REGULAR⟩

theorem entry_valid (t : Bool) : (entry t).Valid := by
  cases t
  · exact ⟨by decide, by decide, by decide⟩
  · exact ⟨by decide, by decide, by decide⟩

theorem fresh_initial : Initial fresh where
  aligned := rfl
  nonempty := by decide
  unique := fun off off' h h' hlive hlive' hname => by
    obtain ⟨hal, hlt⟩ := h
    obtain ⟨hal', hlt'⟩ := h'
    have hoff : off = 0 ∨ off = 32 := by
      simp only [sizeofDirEntry, fresh] at hal hlt
      omega
    have hoff' : off' = 0 ∨ off' = 32 := by
      simp only [sizeofDirEntry, fresh] at hal' hlt'
      omega
    obtain rfl | rfl := hoff
    · obtain rfl | rfl := hoff'
      · rfl
      · simp [fresh] at hname
    · obtain rfl | rfl := hoff'
      · simp [fresh] at hname
      · rfl
  lock := rfl
  pc := fun _ => rfl
  linked := rfl

end DirLink

end RecoverOS
