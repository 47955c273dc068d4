import RecoverOS.Base.Run
import RecoverOS.LibKernel.Bitmap
import RecoverOS.Thread.Sched

set_option autoImplicit false

/-! # The process tree (`userprog/wait_exit.c`, `userprog/fork.c`, `thread/thread.c`)

`sys_fork`, `sys_exit` and `sys_wait` of any number of processes. None of them blocks before its
`thread_block`, so a call of `sys_fork` or `sys_exit` is one step, and so is one turn of the loop of
`sys_wait`. Memory and files of the processes are left out. -/

namespace RecoverOS

namespace WaitExit

open Sched (TaskStat)
open Sched.TaskStat

/-- `struct task_struct`. A `parent_pid` of `none` is that of init and the kernel threads, which nobody
    forked: only `sys_fork` and `init_adopt_a_child` store the field.
    `in_wait` tells that the process is in the loop of `sys_wait`. -/
structure Task where
  pid : Nat
  parent_pid : Option Nat
  stat : TaskStat
  exit_status : BitVec 8
  in_wait : Bool

/-- The threads, by address. An address is handed out once and never again. `parent` is the parent of
    every process, which no code reads: `sys_fork` sets it, and the children of a process that exits go
    to init. -/
structure State where
  tasks : Nat → Option Task
  all_threads_list : List Nat
  pid_bitmap : Bitmap
  next : Nat
  init_proc : Nat
  parent : Nat → Nat

/-! ## The code -/

/-- The `struct task_struct` a pointer leads to. -/
def taskAt (p : Nat) : Prog State Task := do
  let s ← Prog.get
  Prog.ofOption (s.tasks p)

def setTask (p : Nat) (a : Task) : Prog State Unit :=
  Prog.modify fun s => { s with tasks := Function.update s.tasks p (some a) }

namespace State

/-- `list_traversal` of `all_threads_list`. -/
def find (s : State) (f : Task → Bool) : Option Nat :=
  s.all_threads_list.find? fun p => (s.tasks p).any f

/-- The search of `sys_wait` for `find_hanging_child`. -/
def findHangingChild (s : State) (pid : Nat) : Option Nat :=
  s.find fun a => a.parent_pid = some pid ∧ a.stat = TASK_HANGING

/-- Its search for `find_child`. -/
def findChild (s : State) (pid : Nat) : Option Nat := s.find fun a => a.parent_pid = some pid

/-- `pid2thread`. -/
def pid2thread (s : State) (pid : Nat) : Option Nat := s.find fun a => a.pid = pid

/-- Every thread of `all_threads_list` with parent pid `pid` becomes a child of init. -/
def adopt (s : State) (pid : Nat) : State :=
  { s with
    tasks := fun p =>
      if p ∈ s.all_threads_list then (s.tasks p).map fun a =>
        if a.parent_pid = some pid then { a with parent_pid := some 1 } else a
      else s.tasks p }

end State

/-- `alloc_pid`: without a free pid the index `-1` makes it 0. -/
def allocPid : Prog State Nat := do
  let s ← Prog.get
  match bitmapAllocABit s.pid_bitmap with
  | none => pure 0
  | some (bit_idx, btmp) => do
      Prog.modify fun s => { s with pid_bitmap := btmp }
      pure (bit_idx + 1)

/-- `sys_fork`, when there is memory for the child: its address. -/
def sysFork (parent_thread : Nat) : Prog State Nat := do
  let a ← taskAt parent_thread
  let pid ← allocPid
  let s ← Prog.get
  setTask s.next { a with pid := pid, stat := TASK_READY, parent_pid := some a.pid }
  Prog.modify fun s =>
    { s with next := s.next + 1, all_threads_list := s.all_threads_list ++ [s.next] }
  pure s.next

/-- `init_adopt_a_child` on every thread of `all_threads_list`. -/
def initAdopt (pid : Nat) : Prog State Unit := Prog.modify fun s => s.adopt pid

/-- `sys_exit` wakes the parent up if it waits. -/
def wakeParent (parent_thread : Nat) : Prog State Unit := do
  let b ← taskAt parent_thread
  if b.stat = TASK_WAITING then setTask parent_thread { b with stat := TASK_READY } else pure ()

/-- `sys_exit`; a `NULL` from `pid2thread` is read through. -/
def sysExit (child_thread : Nat) (status : BitVec 32) : Prog State Unit := do
  let a ← taskAt child_thread
  setTask child_thread { a with exit_status := status.setWidth 8 }
  Prog.assert (a.parent_pid ≠ none)
  initAdopt a.pid
  let a ← taskAt child_thread
  let s ← Prog.get
  let parent_thread ← Prog.ofOption (a.parent_pid.bind s.pid2thread)
  wakeParent parent_thread
  let a ← taskAt child_thread
  setTask child_thread { a with stat := TASK_HANGING }

/-- `thread_exit(child_thread, false)`. -/
def threadExit (child_thread : Nat) : Prog State Unit := do
  let a ← taskAt child_thread
  Prog.modify fun s =>
    { s with
      tasks := Function.update s.tasks child_thread none
      all_threads_list := s.all_threads_list.erase child_thread
      pid_bitmap := bitmapSet s.pid_bitmap (a.pid - 1) false }

/-- What one turn of the loop of `sys_wait` comes to. -/
inductive WaitResult where
  /-- It returns the pid of the child, and `*status`. -/
  | child (c pid : Nat) (status : BitVec 32)
  /-- It returns `-1`. -/
  | noChild
  | blocked

/-- One turn of the loop of `sys_wait`. -/
def waitTurn (parent_thread : Nat) : Prog State WaitResult := do
  let a ← taskAt parent_thread
  let s ← Prog.get
  match s.findHangingChild a.pid with
  | some c => do
      let child ← taskAt c
      setTask parent_thread { a with in_wait := false }
      threadExit c
      pure (.child c child.pid (child.exit_status.signExtend 32))
  | none =>
      match s.findChild a.pid with
      | none => do
          setTask parent_thread { a with in_wait := false }
          pure .noChild
      | some _ => do
          setTask parent_thread { a with stat := TASK_WAITING, in_wait := true }
          pure .blocked

/-! ## Runs -/

inductive Label where
  | fork (p c : Nat)
  | exit (p : Nat) (status : BitVec 32)
  | wait (p : Nat) (r : WaitResult)
  | sched (p : Nat) (stat : TaskStat)

/-- A process that is neither in `TASK_WAITING` nor in `TASK_HANGING` nor dead. -/
def Task.Schedulable (stat : TaskStat) : Prop :=
  stat = TASK_READY ∨ stat = TASK_RUNNING ∨ stat = TASK_BLOCKED

/-- Init or a child of a process. -/
def State.User (s : State) (p : Nat) (a : Task) : Prop := p = s.init_proc ∨ a.parent_pid ≠ none

/-- The calls of running processes, and whatever else the scheduler and the devices do to the status of
    a process. Init never exits, and a process forks only while there is a free pid. -/
inductive Step : State → Label → State → Prop where
  | fork {s p a c s'} (ha : s.tasks p = some a) (huser : s.User p a) (hstat : a.stat = TASK_RUNNING)
      (hwait : a.in_wait = false) (hfree : bitmapAllocABit s.pid_bitmap ≠ none)
      (hrun : sysFork p s = .ok (c, s')) :
      Step s (.fork p c) { s' with parent := Function.update s'.parent c p }
  | exit {s p a status s'} (ha : s.tasks p = some a) (hinit : p ≠ s.init_proc)
      (huser : s.User p a) (hstat : a.stat = TASK_RUNNING) (hwait : a.in_wait = false)
      (hrun : sysExit p status s = .ok ((), s')) :
      Step s (.exit p status)
        { s' with parent := fun q => if s'.parent q = p then s'.init_proc else s'.parent q }
  | wait {s p a r s'} (ha : s.tasks p = some a) (huser : s.User p a)
      (hstat : a.stat = TASK_RUNNING) (hrun : waitTurn p s = .ok (r, s')) : Step s (.wait p r) s'
  | sched {s p a stat} (ha : s.tasks p = some a) (hold : Task.Schedulable a.stat)
      (hnew : Task.Schedulable stat) :
      Step s (.sched p stat)
        { s with tasks := Function.update s.tasks p (some { a with stat := stat }) }

/-- After `thread_init`: init has pid 1, the other threads are kernel threads. -/
structure Initial (s : State) : Prop where
  nodup : s.all_threads_list.Nodup
  mem_iff : ∀ p, p ∈ s.all_threads_list ↔ ∃ a, s.tasks p = some a
  fresh : ∀ p a, s.tasks p = some a → p < s.next
  pid_inj : ∀ p q a b, s.tasks p = some a → s.tasks q = some b → a.pid = b.pid → p = q
  pid_used : ∀ p a, s.tasks p = some a → 0 < a.pid ∧ bitmapRead s.pid_bitmap (a.pid - 1) = true
  schedulable : ∀ p a, s.tasks p = some a → Task.Schedulable a.stat
  init : ∃ a, s.tasks s.init_proc = some a ∧ a.pid = 1
  parentless : ∀ p a, s.tasks p = some a → a.parent_pid = none

/-! ## The invariant -/

/-- A pid names one thread, and the parent pid of every process names its parent, which has not
    exited. -/
structure Inv (s : State) : Prop where
  nodup : s.all_threads_list.Nodup
  mem_iff : ∀ p, p ∈ s.all_threads_list ↔ ∃ a, s.tasks p = some a
  fresh : ∀ p a, s.tasks p = some a → p < s.next
  pid_inj : ∀ p q a b, s.tasks p = some a → s.tasks q = some b → a.pid = b.pid → p = q
  pid_used : ∀ p a, s.tasks p = some a → 0 < a.pid ∧ bitmapRead s.pid_bitmap (a.pid - 1) = true
  init : ∃ a, s.tasks s.init_proc = some a ∧ a.pid = 1 ∧ a.parent_pid = none ∧ a.stat ≠ TASK_HANGING
  parented : ∀ p a n, s.tasks p = some a → a.parent_pid = some n → s.parent p ≠ p ∧
    ∃ b, s.tasks (s.parent p) = some b ∧ b.pid = n ∧ b.stat ≠ TASK_HANGING
  hanging : ∀ p a, s.tasks p = some a → a.stat = TASK_HANGING → a.parent_pid ≠ none

section Proofs

variable {s s' : State} {p q : Nat} {a b : Task}

theorem taskAt_ok (h : s.tasks p = some a) : taskAt p s = .ok (a, s) := by
  unfold taskAt
  rw [Prog.bind_of_ok (a := s) (t := s) rfl, h]
  rfl

/-! ### The searches -/

theorem find_eq_some {f : Task → Bool} (h : s.find f = some p) :
    ∃ a, s.tasks p = some a ∧ f a = true := by
  have hp := List.find?_some h
  cases ha : s.tasks p with
  | none => simp [ha] at hp
  | some a => exact ⟨a, rfl, by simpa [ha] using hp⟩

theorem find_eq_none (hinv : Inv s) {f : Task → Bool} (h : s.find f = none)
    (ha : s.tasks p = some a) : f a = false := by
  have hall := List.find?_eq_none.1 h p ((hinv.mem_iff p).2 ⟨a, ha⟩)
  simpa [ha] using hall

/-- The thread with a pid is found. -/
theorem pid2thread_of_task (hinv : Inv s) (ha : s.tasks p = some a) : s.pid2thread a.pid = some p := by
  cases h : s.pid2thread a.pid with
  | none =>
      have hf := find_eq_none hinv h ha
      simp at hf
  | some q =>
      obtain ⟨b, hb, hpid⟩ := find_eq_some h
      rw [hinv.pid_inj q p b a hb ha (by simpa using hpid)]

/-- The child of a process is the one with its pid as parent pid. -/
theorem parent_eq_iff (hinv : Inv s) (ha : s.tasks p = some a) (hb : s.tasks q = some b)
    (huser : b.parent_pid ≠ none) : b.parent_pid = some a.pid ↔ s.parent q = p := by
  obtain ⟨n, hn⟩ := Option.ne_none_iff_exists'.1 huser
  obtain ⟨-, c, hc, hpid, -⟩ := hinv.parented q b n hb hn
  constructor
  · intro h
    rw [hn] at h
    cases h
    exact hinv.pid_inj _ _ c a hc ha hpid
  · rintro rfl
    rw [ha] at hc
    cases hc
    rw [hn, hpid]

/-! ### What the calls do -/

theorem sysFork_ok (ha : s.tasks p = some a) {k : Nat} {btmp : Bitmap}
    (hpid : bitmapAllocABit s.pid_bitmap = some (k, btmp)) : sysFork p s =
      .ok (s.next, { s with
        pid_bitmap := btmp
        tasks := Function.update s.tasks s.next
          (some { a with pid := k + 1, stat := TASK_READY, parent_pid := some a.pid })
        next := s.next + 1
        all_threads_list := s.all_threads_list ++ [s.next] }) := by
  have halloc : allocPid s = .ok (k + 1, { s with pid_bitmap := btmp }) := by
    unfold allocPid
    rw [Prog.bind_of_ok (a := s) (t := s) rfl, hpid]
    rfl
  unfold sysFork
  rw [Prog.bind_of_ok (taskAt_ok ha), Prog.bind_of_ok halloc]
  rfl

/-- The parent no longer waits. -/
theorem wakeParent_ok (hb : s.tasks p = some b) : wakeParent p s = .ok ((), { s with
    tasks := Function.update s.tasks p
      (some (if b.stat = TASK_WAITING then { b with stat := TASK_READY } else b)) }) := by
  unfold wakeParent
  rw [Prog.bind_of_ok (taskAt_ok hb)]
  by_cases hw : b.stat = TASK_WAITING
  · rw [if_pos hw, if_pos hw]
    rfl
  · rw [if_neg hw, if_neg hw, ← hb, Function.update_eq_self]
    rfl

/-- The threads after `sys_exit` of `p`, whose task is `a`: `p` hangs, its children are init's, and its
    parent no longer waits. -/
def exited (s : State) (p : Nat) (a : Task) (status : BitVec 32) (q : Nat) (b : Task) : Task where
  pid := b.pid
  parent_pid := if b.parent_pid = some a.pid then some 1 else b.parent_pid
  stat := if q = p then TASK_HANGING
    else if q = s.parent p ∧ b.stat = TASK_WAITING then TASK_READY else b.stat
  exit_status := if q = p then status.setWidth 8 else b.exit_status
  in_wait := b.in_wait

theorem find_congr {f : Task → Bool} (hlist : s'.all_threads_list = s.all_threads_list)
    (h : ∀ q ∈ s.all_threads_list, (s'.tasks q).any f = (s.tasks q).any f) : s'.find f = s.find f := by
  unfold State.find
  rw [hlist]
  generalize s.all_threads_list = l at h
  induction l with
  | nil => rfl
  | cons q l ih =>
      have hq := h q List.mem_cons_self
      have ih' := ih fun r hr => h r (List.mem_cons_of_mem _ hr)
      simp only [List.find?_cons, hq, ih']

theorem sysExit_ok (hinv : Inv s) (ha : s.tasks p = some a) (huser : a.parent_pid ≠ none)
    (status : BitVec 32) : sysExit p status s =
      .ok ((), { s with tasks := fun q => (s.tasks q).map (exited s p a status q) }) := by
  obtain ⟨n, hn⟩ := Option.ne_none_iff_exists'.1 huser
  obtain ⟨hne, b, hb, hpid, hbstat⟩ := hinv.parented p a n ha hn
  have hself : n ≠ a.pid := by
    rintro rfl
    exact hne ((parent_eq_iff hinv ha ha huser).1 hn)
  have hmem : ∀ q c, s.tasks q = some c → q ∈ s.all_threads_list := fun q c hc =>
    (hinv.mem_iff q).2 ⟨c, hc⟩
  -- the states before and after the adoption
  let s1 : State := { s with
    tasks := Function.update s.tasks p (some { a with exit_status := status.setWidth 8 }) }
  let s2 : State := s1.adopt a.pid
  have h2p : s2.tasks p = some { a with exit_status := status.setWidth 8 } := by
    simp [s2, s1, State.adopt, hmem p a ha, hn, hself]
  have h2 : ∀ q, q ≠ p → s2.tasks q = (s.tasks q).map fun c =>
      if c.parent_pid = some a.pid then { c with parent_pid := some 1 } else c := by
    intro q hqp
    cases hc : s.tasks q with
    | none => simp [s2, s1, State.adopt, hqp, hc]
    | some c => simp [s2, s1, State.adopt, hqp, hc, hmem q c hc]
  have hparent : s2.pid2thread n = some (s.parent p) := by
    rw [← hpid, ← pid2thread_of_task hinv hb]
    refine find_congr rfl fun q _ => ?_
    by_cases hqp : q = p
    · rw [hqp, h2p, ha]
      rfl
    · rw [h2 q hqp]
      cases s.tasks q with
      | none => rfl
      | some c =>
          simp only [Option.map_some, Option.any_some]
          split <;> rfl
  have hb2 := (h2 _ hne).trans (congrArg _ hb)
  have hwake := wakeParent_ok ((h2 _ hne).trans (congrArg _ hb))
  unfold sysExit
  rw [Prog.bind_of_ok (taskAt_ok ha), Prog.bind_of_ok (a := ()) (t := s1) rfl,
    Prog.run_assert_bind huser, Prog.bind_of_ok (a := ()) (t := s2) rfl,
    Prog.bind_of_ok (taskAt_ok h2p), Prog.bind_of_ok (a := s2) (t := s2) rfl,
    Prog.bind_of_ok (a := s.parent p) (t := s2) (by simp [hn, hparent]), Prog.bind_of_ok hwake,
    Prog.bind_of_ok (taskAt_ok ((Function.update_of_ne hne.symm _ _).trans h2p))]
  refine congrArg (fun t => Except.ok ((), { s with tasks := t })) (funext fun q => ?_)
  by_cases hqp : q = p
  · subst hqp
    simp [exited, ha, hn, hself]
  · by_cases hqr : q = s.parent p
    · subst hqr
      simp only [Function.update_of_ne hqp, Function.update_self, hb, Option.map_some]
      by_cases hw : b.stat = TASK_WAITING
      · by_cases hc : b.parent_pid = some a.pid
        · simp [exited, hqp, hw, hc]
        · simp [exited, hqp, hw, hc]
      · by_cases hc : b.parent_pid = some a.pid
        · simp [exited, hqp, hw, hc]
        · simp [exited, hqp, hw, hc]
    · simp only [Function.update_of_ne hqp, Function.update_of_ne hqr, h2 _ hqp]
      cases s.tasks q with
      | none => rfl
      | some c =>
          by_cases hc : c.parent_pid = some a.pid
          · simp [exited, hqp, hqr, hc]
          · simp [exited, hqp, hqr, hc]

/-- What a turn of the loop of `sys_wait` comes to. -/
theorem waitTurn_cases {r : WaitResult} (hinv : Inv s) (ha : s.tasks p = some a)
    (hstat : a.stat = TASK_RUNNING) (h : waitTurn p s = .ok (r, s')) :
    (∃ c b, r = .child c b.pid (b.exit_status.signExtend 32) ∧ s.tasks c = some b ∧
      b.parent_pid = some a.pid ∧ b.stat = TASK_HANGING ∧ c ≠ p ∧
      s' = { s with
        tasks := Function.update (Function.update s.tasks p (some { a with in_wait := false })) c none
        all_threads_list := s.all_threads_list.erase c
        pid_bitmap := bitmapSet s.pid_bitmap (b.pid - 1) false }) ∨
    (r = .noChild ∧ (∀ q b, s.tasks q = some b → b.parent_pid ≠ some a.pid) ∧
      s' = { s with tasks := Function.update s.tasks p (some { a with in_wait := false }) }) ∨
    (r = .blocked ∧ (∃ q b, s.tasks q = some b ∧ b.parent_pid = some a.pid) ∧
      (∀ q b, s.tasks q = some b → b.parent_pid = some a.pid → b.stat ≠ TASK_HANGING) ∧
      s' = { s with
        tasks := Function.update s.tasks p (some { a with stat := TASK_WAITING, in_wait := true }) }) := by
  unfold waitTurn at h
  rw [Prog.bind_of_ok (taskAt_ok ha), Prog.bind_of_ok (a := s) (t := s) rfl] at h
  cases hf : s.findHangingChild a.pid with
  | some c =>
      obtain ⟨b, hb, hfb⟩ := find_eq_some hf
      simp only [Bool.decide_and, Bool.and_eq_true, decide_eq_true_eq] at hfb
      have hcp : c ≠ p := by
        rintro rfl
        rw [ha] at hb
        cases hb
        rw [hstat] at hfb
        cases hfb.2
      simp only [hf] at h
      have hb' : (Function.update s.tasks p (some { a with in_wait := false })) c = some b :=
        (Function.update_of_ne hcp _ _).trans hb
      rw [Prog.bind_of_ok (taskAt_ok hb)] at h
      unfold setTask threadExit at h
      simp only [Prog.run_modify_bind] at h
      rw [Prog.bind_of_ok (Prog.bind_of_ok (taskAt_ok hb') _)] at h
      cases h
      exact Or.inl ⟨c, b, rfl, hb, hfb.1, hfb.2, hcp, rfl⟩
  | none =>
      simp only [hf] at h
      have hno : ∀ q b, s.tasks q = some b → b.parent_pid = some a.pid → b.stat ≠ TASK_HANGING := by
        intro q b hb hpp
        have hfb := find_eq_none hinv hf hb
        simpa [hpp] using hfb
      cases hc : s.findChild a.pid with
      | none =>
          simp only [hc] at h
          cases h
          refine Or.inr (Or.inl ⟨rfl, fun q b hb => ?_, rfl⟩)
          have hfb := find_eq_none hinv hc hb
          simpa using hfb
      | some q =>
          simp only [hc] at h
          cases h
          obtain ⟨b, hb, hfb⟩ := find_eq_some hc
          exact Or.inr (Or.inr ⟨rfl, ⟨q, b, hb, by simpa using hfb⟩, hno, rfl⟩)

/-! ### Each step keeps the invariant -/

/-- Threads may change in everything but their pids, as long as every process still has its parent. -/
theorem Inv.map (hinv : Inv s) {f : Nat → Task → Task} (parent : Nat → Nat)
    (hpid : ∀ q c, (f q c).pid = c.pid)
    (hinit : ∀ c, s.tasks s.init_proc = some c → c.parent_pid = none → c.stat ≠ TASK_HANGING →
      (f s.init_proc c).parent_pid = none ∧ (f s.init_proc c).stat ≠ TASK_HANGING)
    (hparented : ∀ q c n, s.tasks q = some c → (f q c).parent_pid = some n → parent q ≠ q ∧
      ∃ b, s.tasks (parent q) = some b ∧ b.pid = n ∧ (f (parent q) b).stat ≠ TASK_HANGING)
    (hhanging : ∀ q c, s.tasks q = some c → (f q c).stat = TASK_HANGING →
      (f q c).parent_pid ≠ none) :
    Inv { s with tasks := fun q => (s.tasks q).map (f q), parent := parent } := by
  constructor
  case nodup => exact hinv.nodup
  case mem_iff =>
    intro q
    show q ∈ s.all_threads_list ↔ ∃ b, (s.tasks q).map (f q) = some b
    rw [hinv.mem_iff]
    cases s.tasks q with
    | none => simp
    | some c => simp
  case fresh =>
    intro q b hb
    obtain ⟨c, hc, -⟩ := Option.map_eq_some_iff.1 hb
    exact hinv.fresh q c hc
  case pid_inj =>
    intro q r b b' hb hb' heq
    obtain ⟨c, hc, rfl⟩ := Option.map_eq_some_iff.1 hb
    obtain ⟨c', hc', rfl⟩ := Option.map_eq_some_iff.1 hb'
    rw [hpid, hpid] at heq
    exact hinv.pid_inj q r c c' hc hc' heq
  case pid_used =>
    intro q b hb
    obtain ⟨c, hc, rfl⟩ := Option.map_eq_some_iff.1 hb
    rw [hpid]
    exact hinv.pid_used q c hc
  case init =>
    obtain ⟨c, hc, hpid1, hpp, hstat⟩ := hinv.init
    obtain ⟨h1, h2⟩ := hinit c hc hpp hstat
    exact ⟨_, Option.map_eq_some_iff.2 ⟨c, hc, rfl⟩, (hpid _ _).trans hpid1, h1, h2⟩
  case parented =>
    intro q b n hb hn
    obtain ⟨c, hc, rfl⟩ := Option.map_eq_some_iff.1 hb
    obtain ⟨hne, d, hd, hdpid, hdstat⟩ := hparented q c n hc hn
    exact ⟨hne, _, Option.map_eq_some_iff.2 ⟨d, hd, rfl⟩, (hpid _ _).trans hdpid, hdstat⟩
  case hanging =>
    intro q b hb hstat
    obtain ⟨c, hc, rfl⟩ := Option.map_eq_some_iff.1 hb
    exact hhanging q c hc hstat

/-- A thread that does not hang changes its status. -/
theorem Inv.setTask (hinv : Inv s) (ha : s.tasks p = some a) (hpid : b.pid = a.pid)
    (hpp : b.parent_pid = a.parent_pid) (hstat : b.stat ≠ TASK_HANGING) :
    Inv { s with tasks := Function.update s.tasks p (some b) } := by
  have htasks : Function.update s.tasks p (some b) =
      fun q => (s.tasks q).map fun c => if q = p then { b with pid := c.pid } else c := by
    funext q
    by_cases hq : q = p
    · subst hq
      simp [ha, ← hpid]
    · cases hc : s.tasks q with
      | none => simp [hq, hc]
      | some c => simp [hq, hc]
  have hsame : ∀ q c, s.tasks q = some c →
      (if q = p then { b with pid := c.pid } else c : Task).parent_pid = c.parent_pid := by
    intro q c hc
    split
    · next hq =>
        subst hq
        rw [ha] at hc
        cases hc
        exact hpp
    · rfl
  rw [htasks]
  refine hinv.map s.parent (fun q c => ?_) (fun c hc hpp' hst => ⟨?_, ?_⟩)
    (fun q c n hc hn => ?_) fun q c hc hst => ?_
  · split <;> rfl
  · rw [hsame _ c hc, hpp']
  · split
    · exact hstat
    · exact hst
  · rw [hsame q c hc] at hn
    obtain ⟨hne, d, hd, hdpid, hdstat⟩ := hinv.parented q c n hc hn
    refine ⟨hne, d, hd, hdpid, ?_⟩
    split
    · exact hstat
    · exact hdstat
  · rw [hsame q c hc]
    split at hst
    · exact absurd hst hstat
    · exact hinv.hanging q c hc hst

/-- The new child has a pid of its own, and its parent runs. -/
theorem Inv.fork (hinv : Inv s) (ha : s.tasks p = some a) (hstat : a.stat = TASK_RUNNING)
    {k : Nat} {btmp : Bitmap} (hpid : bitmapAllocABit s.pid_bitmap = some (k, btmp)) :
    Inv { s with
      pid_bitmap := btmp
      tasks := Function.update s.tasks s.next
        (some { a with pid := k + 1, stat := TASK_READY, parent_pid := some a.pid })
      next := s.next + 1
      all_threads_list := s.all_threads_list ++ [s.next]
      parent := Function.update s.parent s.next p } := by
  obtain ⟨-, hclear, rfl, -⟩ := bitmapAllocABit_eq_some hpid
  have hnone : s.tasks s.next = none := by
    cases hn : s.tasks s.next with
    | none => rfl
    | some c => exact absurd (hinv.fresh _ _ hn) (Nat.lt_irrefl _)
  have hpn : p ≠ s.next := by
    rintro rfl
    rw [ha] at hnone
    cases hnone
  have hcases : ∀ q b, Function.update s.tasks s.next
      (some { a with pid := k + 1, stat := TASK_READY, parent_pid := some a.pid }) q = some b →
      (q = s.next ∧ b = { a with pid := k + 1, stat := TASK_READY, parent_pid := some a.pid }) ∨
        (q ≠ s.next ∧ s.tasks q = some b) := by
    intro q b hb
    by_cases hq : q = s.next
    · subst hq
      rw [Function.update_self] at hb
      exact Or.inl ⟨rfl, (Option.some.inj hb).symm⟩
    · rw [Function.update_of_ne hq] at hb
      exact Or.inr ⟨hq, hb⟩
  have hold : ∀ q b, s.tasks q = some b → q ≠ s.next := by
    rintro q b hb rfl
    rw [hnone] at hb
    cases hb
  have hfresh : ∀ q b, s.tasks q = some b → b.pid ≠ k + 1 := by
    intro q b hb heq
    have hused := (hinv.pid_used q b hb).2
    rw [heq, Nat.add_sub_cancel, hclear] at hused
    cases hused
  constructor
  case nodup =>
    refine List.nodup_append.2 ⟨hinv.nodup, List.pairwise_singleton _ _, ?_⟩
    intro q hq r hr
    obtain ⟨b, hb⟩ := (hinv.mem_iff q).1 hq
    rw [List.mem_singleton.1 hr]
    exact hold q b hb
  case mem_iff =>
    intro q
    show q ∈ s.all_threads_list ++ [s.next] ↔ ∃ b, Function.update s.tasks s.next _ q = some b
    rw [List.mem_append, List.mem_singleton, hinv.mem_iff]
    constructor
    · rintro (⟨b, hb⟩ | rfl)
      · exact ⟨b, (Function.update_of_ne (hold q b hb) _ _).trans hb⟩
      · exact ⟨_, Function.update_self _ _ _⟩
    · rintro ⟨b, hb⟩
      rcases hcases q b hb with ⟨hq, -⟩ | ⟨-, hb⟩
      · exact Or.inr hq
      · exact Or.inl ⟨b, hb⟩
  case fresh =>
    intro q b hb
    rcases hcases q b hb with ⟨rfl, -⟩ | ⟨-, hb⟩
    · exact Nat.lt_succ_self _
    · exact Nat.lt_succ_of_lt (hinv.fresh q b hb)
  case pid_inj =>
    intro q r b c hb hc heq
    rcases hcases q b hb with ⟨rfl, rfl⟩ | ⟨-, hb⟩ <;> rcases hcases r c hc with ⟨rfl, rfl⟩ | ⟨-, hc⟩
    · rfl
    · exact absurd heq.symm (hfresh r c hc)
    · exact absurd heq (hfresh q b hb)
    · exact hinv.pid_inj q r b c hb hc heq
  case pid_used =>
    intro q b hb
    rcases hcases q b hb with ⟨rfl, rfl⟩ | ⟨-, hb⟩
    · exact ⟨Nat.succ_pos k, bitmapRead_bitmapSet_self _ _ _⟩
    · obtain ⟨hpos, hused⟩ := hinv.pid_used q b hb
      refine ⟨hpos, ?_⟩
      show bitmapRead (bitmapSet s.pid_bitmap k true) (b.pid - 1) = true
      rw [bitmapRead_bitmapSet, hused, ite_self]
  case init =>
    obtain ⟨c, hc, hrest⟩ := hinv.init
    exact ⟨c, (Function.update_of_ne (hold _ c hc) _ _).trans hc, hrest⟩
  case parented =>
    intro q b n hb hn
    rcases hcases q b hb with ⟨rfl, rfl⟩ | ⟨hq, hb⟩
    · simp only [Option.some.injEq] at hn
      simp only [Function.update_self]
      refine ⟨hpn, a, (Function.update_of_ne hpn _ _).trans ha, hn, ?_⟩
      rw [hstat]
      decide
    · simp only [Function.update_of_ne hq]
      obtain ⟨hne, d, hd, hrest⟩ := hinv.parented q b n hb hn
      exact ⟨hne, d, (Function.update_of_ne (hold _ d hd) _ _).trans hd, hrest⟩
  case hanging =>
    intro q b hb hst
    rcases hcases q b hb with ⟨rfl, rfl⟩ | ⟨-, hb⟩
    · simp
    · exact hinv.hanging q b hb hst

/-- The children of a process that exits are init's; its parent is another process. -/
theorem Inv.exit (hinv : Inv s) (ha : s.tasks p = some a) (huser : a.parent_pid ≠ none)
    (status : BitVec 32) :
    Inv { s with
      tasks := fun q => (s.tasks q).map (exited s p a status q)
      parent := fun q => if s.parent q = p then s.init_proc else s.parent q } := by
  obtain ⟨i, hi, hi1, hipp, hist⟩ := hinv.init
  have hpi : p ≠ s.init_proc := by
    rintro rfl
    rw [ha] at hi
    cases hi
    exact huser hipp
  obtain ⟨n, hn⟩ := Option.ne_none_iff_exists'.1 huser
  have hnp := (hinv.parented p a n ha hn).1
  have hlive : ∀ q b, q ≠ p → b.stat ≠ TASK_HANGING →
      (exited s p a status q b).stat ≠ TASK_HANGING := by
    intro q b hqp hst
    simp only [exited, if_neg hqp]
    split
    · simp
    · exact hst
  refine hinv.map _ (fun _ _ => rfl) (fun c hc hpp hst => ⟨?_, hlive _ c hpi.symm hst⟩)
    (fun q c m hc hm => ?_) fun q c hc hst => ?_
  · simp [exited, hpp]
  · by_cases hpc : c.parent_pid = some a.pid
    · -- a child of the process that exits
      have hparent := (parent_eq_iff hinv ha hc (by simp [hpc])).1 hpc
      have hqi : q ≠ s.init_proc := by
        rintro rfl
        rw [hi] at hc
        cases hc
        rw [hipp] at hpc
        cases hpc
      simp only [exited, if_pos hpc, Option.some.injEq] at hm
      rw [if_pos hparent]
      exact ⟨hqi.symm, i, hi, hi1.trans hm, hlive _ i hpi.symm hist⟩
    · simp only [exited, if_neg hpc] at hm
      have hparent : s.parent q ≠ p := fun h =>
        hpc ((parent_eq_iff hinv ha hc (by simp [hm])).2 h)
      obtain ⟨hne, d, hd, hdpid, hdst⟩ := hinv.parented q c m hc hm
      rw [if_neg hparent]
      exact ⟨hne, d, hd, hdpid, hlive _ d hparent hdst⟩
  · have hpp : c.parent_pid ≠ none := by
      by_cases hqp : q = p
      · subst hqp
        rw [ha] at hc
        cases hc
        exact huser
      · simp only [exited, if_neg hqp] at hst
        split at hst
        · cases hst
        · exact hinv.hanging q c hc hst
    by_cases hc1 : c.parent_pid = some a.pid
    · simp [exited, hc1]
    · simp [exited, hc1, hpp]

/-- A process that has exited has no children, so it can go. -/
theorem Inv.reap (hinv : Inv s) (hb : s.tasks q = some b) (hstat : b.stat = TASK_HANGING) :
    Inv { s with
      tasks := Function.update s.tasks q none
      all_threads_list := s.all_threads_list.erase q
      pid_bitmap := bitmapSet s.pid_bitmap (b.pid - 1) false } := by
  have hcases : ∀ r c, Function.update s.tasks q none r = some c → r ≠ q ∧ s.tasks r = some c := by
    intro r c hc
    by_cases hr : r = q
    · subst hr
      rw [Function.update_self] at hc
      cases hc
    · rw [Function.update_of_ne hr] at hc
      exact ⟨hr, hc⟩
  have hold : ∀ r c, r ≠ q → s.tasks r = some c → Function.update s.tasks q none r = some c :=
    fun r c hr hc => (Function.update_of_ne hr _ _).trans hc
  constructor
  case nodup => exact hinv.nodup.erase q
  case mem_iff =>
    intro r
    show r ∈ s.all_threads_list.erase q ↔ ∃ c, Function.update s.tasks q none r = some c
    rw [hinv.nodup.mem_erase_iff, hinv.mem_iff]
    constructor
    · rintro ⟨hr, c, hc⟩
      exact ⟨c, hold r c hr hc⟩
    · rintro ⟨c, hc⟩
      exact ⟨(hcases r c hc).1, c, (hcases r c hc).2⟩
  case fresh => exact fun r c hc => hinv.fresh r c (hcases r c hc).2
  case pid_inj =>
    exact fun r r' c c' hc hc' heq => hinv.pid_inj r r' c c' (hcases r c hc).2 (hcases r' c' hc').2 heq
  case pid_used =>
    intro r c hc
    obtain ⟨hr, hc⟩ := hcases r c hc
    obtain ⟨hpos, hused⟩ := hinv.pid_used r c hc
    have hbpos := (hinv.pid_used q b hb).1
    have hne : c.pid ≠ b.pid := fun heq => hr (hinv.pid_inj r q c b hc hb heq)
    refine ⟨hpos, ?_⟩
    exact (bitmapRead_bitmapSet_of_ne _ _ (by omega)).trans hused
  case init =>
    obtain ⟨i, hi, h1, h2, h3⟩ := hinv.init
    have hiq : s.init_proc ≠ q := by
      intro heq
      rw [heq, hb] at hi
      cases hi
      exact h3 hstat
    exact ⟨i, hold _ i hiq hi, h1, h2, h3⟩
  case parented =>
    intro r c n hc hn
    obtain ⟨hne, d, hd, hdpid, hdst⟩ := hinv.parented r c n (hcases r c hc).2 hn
    have hdq : s.parent r ≠ q := by
      intro heq
      rw [heq, hb] at hd
      cases hd
      exact hdst hstat
    exact ⟨hne, d, hold _ d hdq hd, hdpid, hdst⟩
  case hanging => exact fun r c hc => hinv.hanging r c (hcases r c hc).2

theorem Inv.wait {r : WaitResult} (hinv : Inv s) (ha : s.tasks p = some a)
    (hstat : a.stat = TASK_RUNNING) (h : waitTurn p s = .ok (r, s')) : Inv s' := by
  have hset := hinv.setTask (b := { a with in_wait := false }) ha rfl rfl (by
    rw [hstat]
    decide)
  rcases waitTurn_cases hinv ha hstat h with ⟨c, b, -, hb, -, hst, hcp, rfl⟩ | ⟨-, -, rfl⟩ |
    ⟨-, -, -, rfl⟩
  · exact hset.reap ((Function.update_of_ne hcp _ _).trans hb) hst
  · exact hset
  · exact hinv.setTask ha rfl rfl (show TASK_WAITING ≠ TASK_HANGING by decide)

theorem Task.Schedulable.not_hanging {stat : TaskStat} (h : Task.Schedulable stat) :
    stat ≠ TASK_HANGING := by
  rintro rfl
  rcases h with h | h | h <;> cases h

theorem State.User.parent_pid (h : s.User p a) (hp : p ≠ s.init_proc) : a.parent_pid ≠ none :=
  h.resolve_left hp

theorem Step.inv {l : Label} (hinv : Inv s) (h : Step s l s') : Inv s' := by
  cases h with
  | fork ha huser hstat hwait hfree hrun =>
      obtain ⟨⟨k, btmp⟩, hpid⟩ := Option.ne_none_iff_exists'.1 hfree
      rw [sysFork_ok ha hpid] at hrun
      cases hrun
      exact hinv.fork ha hstat hpid
  | exit ha hinit huser hstat hwait hrun =>
      rw [sysExit_ok hinv ha (huser.parent_pid hinit)] at hrun
      cases hrun
      exact hinv.exit ha (huser.parent_pid hinit) _
  | wait ha huser hstat hrun => exact hinv.wait ha hstat hrun
  | sched ha hold hnew => exact hinv.setTask ha rfl rfl hnew.not_hanging

theorem Initial.inv (h : Initial s) : Inv s where
  nodup := h.nodup
  mem_iff := h.mem_iff
  fresh := h.fresh
  pid_inj := h.pid_inj
  pid_used := h.pid_used
  init := by
    obtain ⟨a, ha, h1⟩ := h.init
    exact ⟨a, ha, h1, h.parentless _ a ha, (h.schedulable _ a ha).not_hanging⟩
  parented p a n ha hn := by
    rw [h.parentless p a ha] at hn
    cases hn
  hanging p a ha hst := absurd hst (h.schedulable p a ha).not_hanging

/-! ### Who exited, and who was waited for -/

/-- The process that exits in a step. -/
def Label.exits : Label → Option Nat
  | exit p _ => some p
  | _ => none

/-- The child that a step of `sys_wait` returns. -/
def Label.returns : Label → Option Nat
  | wait _ (.child c _ _) => some c
  | _ => none

/-- What the steps so far say about the processes that have exited. -/
structure History (ls : List Label) (s : State) : Prop where
  inv : Inv s
  exits_nodup : (ls.filterMap Label.exits).Nodup
  returns_nodup : (ls.filterMap Label.returns).Nodup
  afterExit : ∀ p ∈ ls.filterMap Label.exits, p < s.next ∧ ∀ a, s.tasks p = some a → a.stat = TASK_HANGING
  afterReturn : ∀ p ∈ ls.filterMap Label.returns, p < s.next ∧ s.tasks p = none
  hanging : ∀ p a, s.tasks p = some a → a.stat = TASK_HANGING →
    ∃ status, .exit p status ∈ ls ∧ a.exit_status = status.setWidth 8
  status : ∀ p c pid st, .wait p (.child c pid st) ∈ ls →
    ∃ status, .exit c status ∈ ls ∧ st = (status.setWidth 8).signExtend 32

variable {ls : List Label} {l : Label}

/-- A step in which nobody exits or is waited for, and which leaves the hanging processes as they are. -/
theorem History.quiet (h : History ls s) (hinv : Inv s') (hexits : l.exits = none)
    (hreturns : l.returns = none) (hnext : s.next ≤ s'.next)
    (hsame : ∀ q b, s'.tasks q = some b → q < s.next →
      ∃ c, s.tasks q = some c ∧ (c.stat = TASK_HANGING → b = c))
    (hnew : ∀ q b, s'.tasks q = some b → b.stat = TASK_HANGING → s.tasks q = some b) :
    History (ls ++ [l]) s' := by
  have hexits' : (ls ++ [l]).filterMap Label.exits = ls.filterMap Label.exits := by simp [hexits]
  have hreturns' : (ls ++ [l]).filterMap Label.returns = ls.filterMap Label.returns := by
    simp [hreturns]
  constructor
  case inv => exact hinv
  case exits_nodup => rw [hexits']; exact h.exits_nodup
  case returns_nodup => rw [hreturns']; exact h.returns_nodup
  case afterExit =>
    intro q hq
    rw [hexits'] at hq
    obtain ⟨hlt, hhang⟩ := h.afterExit q hq
    refine ⟨Nat.lt_of_lt_of_le hlt hnext, fun b hb => ?_⟩
    obtain ⟨c, hc, hcb⟩ := hsame q b hb hlt
    rw [hcb (hhang c hc)]
    exact hhang c hc
  case afterReturn =>
    intro q hq
    rw [hreturns'] at hq
    obtain ⟨hlt, hnone⟩ := h.afterReturn q hq
    refine ⟨Nat.lt_of_lt_of_le hlt hnext, ?_⟩
    cases hb : s'.tasks q with
    | none => rfl
    | some b =>
        obtain ⟨c, hc, -⟩ := hsame q b hb hlt
        rw [hnone] at hc
        cases hc
  case hanging =>
    intro q b hb hst
    obtain ⟨status, hmem, heq⟩ := h.hanging q b (hnew q b hb hst) hst
    exact ⟨status, List.mem_append_left _ hmem, heq⟩
  case status =>
    intro p c pid st hmem
    rcases List.mem_append.1 hmem with hmem | hmem
    · obtain ⟨status, hexit, heq⟩ := h.status p c pid st hmem
      exact ⟨status, List.mem_append_left _ hexit, heq⟩
    · rw [← List.mem_singleton.1 hmem] at hreturns
      cases hreturns

/-- A thread that does not hang, before and after. -/
theorem History.setTask (h : History ls s) (ha : s.tasks p = some a) (hold : a.stat ≠ TASK_HANGING)
    (hb : b.stat ≠ TASK_HANGING) (hexits : l.exits = none) (hreturns : l.returns = none)
    (hinv : Inv { s with tasks := Function.update s.tasks p (some b) }) :
    History (ls ++ [l]) { s with tasks := Function.update s.tasks p (some b) } := by
  refine h.quiet hinv hexits hreturns (Nat.le_refl _) (fun q c hc _ => ?_) fun q c hc hst => ?_
  · by_cases hq : q = p
    · subst hq
      exact ⟨a, ha, fun hst => absurd hst hold⟩
    · simp only [Function.update_of_ne hq] at hc
      exact ⟨c, hc, fun _ => rfl⟩
  · by_cases hq : q = p
    · subst hq
      simp only [Function.update_self, Option.some.injEq] at hc
      rw [← hc] at hst
      exact absurd hst hb
    · simpa [hq] using hc

theorem History.fork (h : History ls s) (ha : s.tasks p = some a) (hstat : a.stat = TASK_RUNNING)
    {k : Nat} {btmp : Bitmap} (hpid : bitmapAllocABit s.pid_bitmap = some (k, btmp)) :
    History (ls ++ [.fork p s.next]) { s with
      pid_bitmap := btmp
      tasks := Function.update s.tasks s.next
        (some { a with pid := k + 1, stat := TASK_READY, parent_pid := some a.pid })
      next := s.next + 1
      all_threads_list := s.all_threads_list ++ [s.next]
      parent := Function.update s.parent s.next p } := by
  refine h.quiet (h.inv.fork ha hstat hpid) rfl rfl (Nat.le_succ _) (fun q c hc hq => ?_)
    fun q c hc hst => ?_
  · simp only [Function.update_of_ne (Nat.ne_of_lt hq)] at hc
    exact ⟨c, hc, fun _ => rfl⟩
  · by_cases hq : q = s.next
    · subst hq
      simp only [Function.update_self, Option.some.injEq] at hc
      rw [← hc] at hst
      cases hst
    · simpa [hq] using hc

theorem History.exit (h : History ls s) (ha : s.tasks p = some a) (hstat : a.stat = TASK_RUNNING)
    (huser : a.parent_pid ≠ none) (status : BitVec 32) :
    History (ls ++ [.exit p status]) { s with
      tasks := fun q => (s.tasks q).map (exited s p a status q)
      parent := fun q => if s.parent q = p then s.init_proc else s.parent q } := by
  have hnot : a.stat ≠ TASK_HANGING := by
    rw [hstat]
    decide
  -- the threads that hung before, and only they and the process that exits, hang
  have hkeep : ∀ q c, c.stat = TASK_HANGING → (exited s p a status q c).stat = TASK_HANGING := by
    intro q c hst
    simp [exited, hst]
  have hback : ∀ q c, q ≠ p → (exited s p a status q c).stat = TASK_HANGING →
      c.stat = TASK_HANGING := by
    intro q c hq hst
    simp only [exited, if_neg hq] at hst
    split at hst
    · cases hst
    · exact hst
  have hreturns : (ls ++ [Label.exit p status]).filterMap Label.returns
      = ls.filterMap Label.returns := by
    rw [List.filterMap_append]
    exact List.append_nil _
  constructor
  case inv => exact h.inv.exit ha huser status
  case exits_nodup =>
    simp only [List.filterMap_append]
    refine List.nodup_append.2 ⟨h.exits_nodup, List.pairwise_singleton _ _, ?_⟩
    intro q hq r hr
    rw [List.mem_singleton.1 hr]
    rintro rfl
    exact hnot ((h.afterExit q hq).2 a ha)
  case returns_nodup =>
    rw [hreturns]
    exact h.returns_nodup
  case afterExit =>
    intro q hq
    simp only [List.filterMap_append, List.mem_append] at hq
    rcases hq with hq | hq
    · obtain ⟨hlt, hhang⟩ := h.afterExit q hq
      refine ⟨hlt, fun b hb => ?_⟩
      obtain ⟨c, hc, rfl⟩ := Option.map_eq_some_iff.1 hb
      exact hkeep q c (hhang c hc)
    · rw [List.mem_singleton.1 hq]
      refine ⟨h.inv.fresh p a ha, fun b hb => ?_⟩
      obtain ⟨c, hc, rfl⟩ := Option.map_eq_some_iff.1 hb
      simp [exited]
  case afterReturn =>
    intro q hq
    rw [hreturns] at hq
    obtain ⟨hlt, hnone⟩ := h.afterReturn q hq
    exact ⟨hlt, by simp [hnone]⟩
  case hanging =>
    intro q b hb hst
    obtain ⟨c, hc, rfl⟩ := Option.map_eq_some_iff.1 hb
    by_cases hq : q = p
    · subst hq
      exact ⟨status, by simp, by simp [exited]⟩
    · obtain ⟨status', hmem, heq⟩ := h.hanging q c hc (hback q c hq hst)
      exact ⟨status', List.mem_append_left _ hmem, by simpa [exited, hq] using heq⟩
  case status =>
    intro r c pid st hmem
    have hmem' : .wait r (.child c pid st) ∈ ls := by simpa using hmem
    obtain ⟨status', hexit, heq⟩ := h.status r c pid st hmem'
    exact ⟨status', List.mem_append_left _ hexit, heq⟩

theorem History.child (h : History ls s) (ha : s.tasks p = some a)
    (hb : s.tasks q = some b) (hst : b.stat = TASK_HANGING) (hqp : q ≠ p)
    (hinv : Inv { s with
      tasks := Function.update (Function.update s.tasks p (some { a with in_wait := false })) q none
      all_threads_list := s.all_threads_list.erase q
      pid_bitmap := bitmapSet s.pid_bitmap (b.pid - 1) false }) :
    History (ls ++ [.wait p (.child q b.pid (b.exit_status.signExtend 32))]) { s with
      tasks := Function.update (Function.update s.tasks p (some { a with in_wait := false })) q none
      all_threads_list := s.all_threads_list.erase q
      pid_bitmap := bitmapSet s.pid_bitmap (b.pid - 1) false } := by
  have hcases : ∀ r c,
      Function.update (Function.update s.tasks p (some { a with in_wait := false })) q none r = some c →
      ∃ d, s.tasks r = some d ∧ c.stat = d.stat ∧ c.exit_status = d.exit_status := by
    intro r c hc
    by_cases hr : r = q
    · subst hr
      simp at hc
    · rw [Function.update_of_ne hr] at hc
      by_cases hrp : r = p
      · subst hrp
        rw [Function.update_self] at hc
        cases hc
        exact ⟨a, ha, rfl, rfl⟩
      · rw [Function.update_of_ne hrp] at hc
        exact ⟨c, hc, rfl, rfl⟩
  have hexits : (ls ++ [Label.wait p (.child q b.pid (b.exit_status.signExtend 32))]).filterMap
      Label.exits
      = ls.filterMap Label.exits := by
    rw [List.filterMap_append]
    exact List.append_nil _
  constructor
  case inv => exact hinv
  case exits_nodup =>
    rw [hexits]
    exact h.exits_nodup
  case returns_nodup =>
    simp only [List.filterMap_append]
    refine List.nodup_append.2 ⟨h.returns_nodup, List.pairwise_singleton _ _, ?_⟩
    intro r hr r' hr'
    rw [List.mem_singleton.1 hr']
    rintro rfl
    rw [(h.afterReturn r hr).2] at hb
    cases hb
  case afterExit =>
    intro r hr
    rw [hexits] at hr
    obtain ⟨hlt, hhang⟩ := h.afterExit r hr
    refine ⟨hlt, fun c hc => ?_⟩
    obtain ⟨d, hd, hcd, -⟩ := hcases r c hc
    rw [hcd]
    exact hhang d hd
  case afterReturn =>
    intro r hr
    simp only [List.filterMap_append, List.mem_append] at hr
    rcases hr with hr | hr
    · obtain ⟨hlt, hnone⟩ := h.afterReturn r hr
      refine ⟨hlt, ?_⟩
      cases hc : Function.update (Function.update s.tasks p (some { a with in_wait := false })) q none r with
      | none => exact hc
      | some c =>
          obtain ⟨d, hd, -⟩ := hcases r c hc
          rw [hnone] at hd
          cases hd
    · rw [List.mem_singleton.1 hr]
      exact ⟨h.inv.fresh q b hb, Function.update_self _ _ _⟩
  case hanging =>
    intro r c hc hcst
    obtain ⟨d, hd, hcd, hexit⟩ := hcases r c hc
    obtain ⟨status, hmem, heq⟩ := h.hanging r d hd (hcd.symm.trans hcst)
    exact ⟨status, List.mem_append_left _ hmem, hexit.trans heq⟩
  case status =>
    intro r c pid st hmem
    rcases List.mem_append.1 hmem with hmem | hmem
    · obtain ⟨status, hexit, heq⟩ := h.status r c pid st hmem
      exact ⟨status, List.mem_append_left _ hexit, heq⟩
    · cases List.mem_singleton.1 hmem
      obtain ⟨status, hmem, heq⟩ := h.hanging q b hb hst
      exact ⟨status, List.mem_append_left _ hmem, by rw [heq]⟩

theorem History.step (h : History ls s) (hstep : Step s l s') : History (ls ++ [l]) s' := by
  have hinv' := hstep.inv h.inv
  have hrunning : ∀ {st}, st = TASK_RUNNING → st ≠ TASK_HANGING := by
    rintro _ rfl
    decide
  cases hstep with
  | fork ha huser hstat hwait hfree hrun =>
      obtain ⟨⟨k, btmp⟩, hpid⟩ := Option.ne_none_iff_exists'.1 hfree
      rw [sysFork_ok ha hpid] at hrun
      cases hrun
      exact h.fork ha hstat hpid
  | exit ha hinit huser hstat hwait hrun =>
      rw [sysExit_ok h.inv ha (huser.parent_pid hinit)] at hrun
      cases hrun
      exact h.exit ha hstat (huser.parent_pid hinit) _
  | wait ha huser hstat hrun =>
      rcases waitTurn_cases h.inv ha hstat hrun with ⟨c, b, rfl, hb, -, hst, hcp, rfl⟩ |
        ⟨rfl, -, rfl⟩ | ⟨rfl, -, -, rfl⟩
      · exact h.child ha hb hst hcp hinv'
      · exact h.setTask ha (hrunning hstat) (hrunning hstat) rfl rfl hinv'
      · exact h.setTask ha (hrunning hstat) (show TASK_WAITING ≠ TASK_HANGING by decide) rfl rfl hinv'
  | sched ha hold hnew =>
      exact h.setTask ha hold.not_hanging hnew.not_hanging rfl rfl hinv'

theorem Initial.history (h : Initial s) : History [] s where
  inv := h.inv
  exits_nodup := List.nodup_nil
  returns_nodup := List.nodup_nil
  afterExit p hp := by cases hp
  afterReturn p hp := by cases hp
  hanging p a ha hst := absurd hst (h.schedulable p a ha).not_hanging
  status p c pid st hmem := by cases hmem

theorem Initial.run_history (h : Initial s) (hrun : Run Step s ls s') : History ls s' := by
  induction hrun with
  | nil => exact h.history
  | snoc _ hlast ih => exact ih.step hlast

end Proofs

/-! ## Parents and children -/

/-- In every reachable state: a process that has not been waited for has its parent in
    `all_threads_list`, `pid2thread` finds it, and `sys_exit` runs; no process is returned by two calls
    of `sys_wait`, and whoever is returned exited once, with the status returned; a call of `sys_wait`
    returns a child of the caller, or `-1` exactly if the caller has none. -/
theorem process_tree {s s' : State} {ls : List Label} (h : Initial s) (hrun : Run Step s ls s') :
    (∀ p a n, s'.tasks p = some a → a.parent_pid = some n →
      s'.pid2thread n = some (s'.parent p) ∧ s'.parent p ∈ s'.all_threads_list ∧
      ∀ status, ∃ s'', sysExit p status s' = .ok ((), s'')) ∧
    (ls.filterMap Label.returns).Nodup ∧ (ls.filterMap Label.exits).Nodup ∧
    (∀ p c pid st, .wait p (.child c pid st) ∈ ls →
      ∃ status, .exit c status ∈ ls ∧ st = (status.setWidth 8).signExtend 32) ∧
    (∀ p r s'', Step s' (.wait p r) s'' →
      (∀ c pid st, r = .child c pid st → s'.parent c = p ∧
        ∃ a, s'.tasks c = some a ∧ a.parent_pid ≠ none ∧ a.pid = pid) ∧
      (r = .noChild ↔ ∀ c a, s'.tasks c = some a → a.parent_pid ≠ none → s'.parent c ≠ p)) := by
  have hist := h.run_history hrun
  have hinv := hist.inv
  refine ⟨fun p a n ha hn => ?_, hist.returns_nodup, hist.exits_nodup, hist.status, ?_⟩
  · obtain ⟨-, b, hb, rfl, -⟩ := hinv.parented p a n ha hn
    exact ⟨pid2thread_of_task hinv hb, (hinv.mem_iff _).2 ⟨b, hb⟩,
      fun status => ⟨_, sysExit_ok hinv ha (by simp [hn]) status⟩⟩
  · intro p r s'' hstep
    cases hstep with
    | wait ha huser hstat hrun =>
        rcases waitTurn_cases hinv ha hstat hrun with ⟨c, b, rfl, hb, hpp, -⟩ | ⟨rfl, hno, -⟩ |
          ⟨rfl, ⟨q, b, hb, hpp⟩, -⟩
        · have huser' : b.parent_pid ≠ none := by simp [hpp]
          have hparent := (parent_eq_iff hinv ha hb huser').1 hpp
          refine ⟨fun c' pid st heq => ?_, fun heq => ?_, fun hall => ?_⟩
          · cases heq
            exact ⟨hparent, b, hb, huser', rfl⟩
          · cases heq
          · exact absurd hparent (hall c b hb huser')
        · refine ⟨fun c' pid st heq => ?_, fun _ c b hb huser' hparent => ?_, fun _ => rfl⟩
          · cases heq
          · exact hno c b hb ((parent_eq_iff hinv ha hb huser').2 hparent)
        · have huser' : b.parent_pid ≠ none := by simp [hpp]
          refine ⟨fun c' pid st heq => ?_, fun heq => ?_, fun hall => ?_⟩
          · cases heq
          · cases heq
          · exact absurd ((parent_eq_iff hinv ha hb huser').1 hpp) (hall q b hb huser')

/-! ## Waiting for a child that has exited -/

/-- No process waits while it has a child that hangs. -/
def NoSleeper (s : State) : Prop :=
  ∀ p a c b, s.tasks p = some a → s.tasks c = some b → b.parent_pid = some a.pid →
    a.stat = TASK_WAITING → b.stat ≠ TASK_HANGING

/-- If a process exits whose parent is not init, and leaves a child that hangs, then init does not
    wait. -/
def InitAwake (s : State) : Label → Prop
  | .exit p _ => ∀ a c b i, s.tasks p = some a → s.tasks c = some b → s.tasks s.init_proc = some i →
      a.parent_pid ≠ some 1 → b.parent_pid = some a.pid → b.stat = TASK_HANGING →
      i.stat ≠ TASK_WAITING
  | _ => True

section Sleepers

variable {s s' : State} {p : Nat} {a b : Task}

theorem NoSleeper.setTask (h : NoSleeper s) (hpid : b.pid = a.pid) (hst : b.stat ≠ TASK_HANGING)
    (hwait : b.stat = TASK_WAITING →
      ∀ q c, s.tasks q = some c → c.parent_pid = some a.pid → c.stat ≠ TASK_HANGING) :
    NoSleeper { s with tasks := Function.update s.tasks p (some b) } := by
  intro q d r c hd hc hparent hw
  by_cases hr : r = p
  · subst hr
    simp only [Function.update_self, Option.some.injEq] at hc
    rw [← hc]
    exact hst
  · simp only [Function.update_of_ne hr] at hc
    by_cases hq : q = p
    · subst hq
      simp only [Function.update_self, Option.some.injEq] at hd
      rw [← hd] at hparent hw
      exact hwait hw r c hc (by rw [hparent, hpid])
    · simp only [Function.update_of_ne hq] at hd
      exact h q d r c hd hc hparent hw

theorem NoSleeper.fork (h : NoSleeper s) (hst : b.stat = TASK_READY) :
    NoSleeper { s with tasks := Function.update s.tasks s.next (some b) } := by
  intro q d r c hd hc hparent hw
  by_cases hr : r = s.next
  · subst hr
    simp only [Function.update_self, Option.some.injEq] at hc
    rw [← hc, hst]
    decide
  · simp only [Function.update_of_ne hr] at hc
    by_cases hq : q = s.next
    · subst hq
      simp only [Function.update_self, Option.some.injEq] at hd
      rw [← hd, hst] at hw
      cases hw
    · simp only [Function.update_of_ne hq] at hd
      exact h q d r c hd hc hparent hw

/-- After `sys_exit` somebody waits for a process that hangs exactly if init does, for a child it has
    just got. -/
theorem noSleeper_exit_iff (h : NoSleeper s) (hinv : Inv s) (ha : s.tasks p = some a)
    (huser : a.parent_pid ≠ none) (hstat : a.stat = TASK_RUNNING) (status : BitVec 32) :
    NoSleeper { s with tasks := fun q => (s.tasks q).map (exited s p a status q) } ↔
      InitAwake s (.exit p status) := by
  obtain ⟨i, hi, hi1, hipp, -⟩ := hinv.init
  obtain ⟨n, hn⟩ := Option.ne_none_iff_exists'.1 huser
  obtain ⟨hne, e, he, hepid, -⟩ := hinv.parented p a n ha hn
  have hpi : p ≠ s.init_proc := by
    rintro rfl
    rw [ha] at hi
    cases hi
    exact huser hipp
  have hparent : a.parent_pid = some 1 ↔ s.parent p = s.init_proc := by
    rw [← hi1]
    exact parent_eq_iff hinv hi ha huser
  constructor
  · intro h' a' c b i' ha' hb hi' hnot hpp hhang hwait
    rw [ha] at ha'
    cases ha'
    rw [hi] at hi'
    cases hi'
    have hcp : c ≠ p := by
      rintro rfl
      rw [ha] at hb
      cases hb
      rw [hstat] at hhang
      cases hhang
    have hip : s.init_proc ≠ s.parent p := fun heq => hnot (hparent.2 heq.symm)
    refine h' s.init_proc (exited s p a status s.init_proc i) c (exited s p a status c b)
      (by simp [hi]) (by simp [hb]) ?_ ?_ ?_
    · simp [exited, hpp, hi1]
    · simp [exited, hpi.symm, hip, hwait]
    · simp [exited, hcp, hhang]
  · intro hawake q d' r c' hd' hc' hpp hw hhang
    obtain ⟨d, hd, rfl⟩ := Option.map_eq_some_iff.1 hd'
    obtain ⟨c, hc, rfl⟩ := Option.map_eq_some_iff.1 hc'
    -- the waiting process is neither the one that exits nor its parent
    have hqp : q ≠ p := by
      rintro rfl
      simp [exited] at hw
    have hqr : q ≠ s.parent p := by
      rintro rfl
      simp only [exited, if_neg hqp, true_and] at hw
      split at hw
      · cases hw
      · next hnw => exact hnw hw
    have hdw : d.stat = TASK_WAITING := by simpa [exited, hqp, hqr] using hw
    have hpp' : (exited s p a status r c).parent_pid = some d.pid := hpp
    by_cases hrp : r = p
    · subst hrp
      rw [ha] at hc
      cases hc
      have hself : a.parent_pid ≠ some a.pid := fun heq =>
        hne ((parent_eq_iff hinv ha ha huser).1 heq)
      simp only [exited, if_neg hself] at hpp'
      exact hqr ((parent_eq_iff hinv hd ha huser).1 hpp').symm
    · have hch : c.stat = TASK_HANGING := by
        simp only [exited, if_neg hrp] at hhang
        split at hhang
        · cases hhang
        · exact hhang
      by_cases hchild : c.parent_pid = some a.pid
      · -- a child that init has just got
        simp only [exited, if_pos hchild, Option.some.injEq] at hpp'
        have hqi : q = s.init_proc := hinv.pid_inj q _ d i hd hi (hpp'.symm.trans hi1.symm)
        subst hqi
        rw [hi] at hd
        cases hd
        have hnot : a.parent_pid ≠ some 1 := fun heq => hqr (hparent.1 heq).symm
        exact hawake a r c i ha hc hi hnot hchild hch hdw
      · simp only [exited, if_neg hchild] at hpp'
        exact h q d r c hd hc hpp' hdw hch

/-- From a state in which nobody sleeps on a finished child, a step leads to such a state exactly if it
    is no `sys_exit` that init sleeps through. -/
theorem Step.noSleeper_iff {l : Label} (h : NoSleeper s) (hinv : Inv s) (hstep : Step s l s') :
    NoSleeper s' ↔ InitAwake s l := by
  cases hstep with
  | fork ha huser hstat hwait hfree hrun =>
      obtain ⟨⟨k, btmp⟩, hpid⟩ := Option.ne_none_iff_exists'.1 hfree
      rw [sysFork_ok ha hpid] at hrun
      cases hrun
      exact iff_of_true (h.fork rfl) trivial
  | exit ha hinit huser hstat hwait hrun =>
      rw [sysExit_ok hinv ha (huser.parent_pid hinit)] at hrun
      cases hrun
      exact noSleeper_exit_iff h hinv ha (huser.parent_pid hinit) hstat _
  | @wait p a r _ ha huser hstat hrun =>
      have hset := h.setTask (p := p) (a := a) (b := { a with in_wait := false }) rfl
        (show a.stat ≠ TASK_HANGING by simp [hstat])
        (fun hw => absurd hw (show a.stat ≠ TASK_WAITING by simp [hstat]))
      refine iff_of_true ?_ trivial
      rcases waitTurn_cases hinv ha hstat hrun with ⟨c, b, -, hb, -, -, -, rfl⟩ | ⟨-, -, rfl⟩ |
        ⟨-, -, hno, rfl⟩
      · -- one process less
        intro q d r e hd he hpp hw
        have hsub : ∀ x y, Function.update (Function.update s.tasks p (some { a with in_wait := false }))
            c none x = some y → Function.update s.tasks p (some { a with in_wait := false }) x = some y := by
          intro x y hy
          by_cases hx : x = c
          · subst hx
            simp at hy
          · simpa [hx] using hy
        exact hset q d r e (hsub q d hd) (hsub r e he) hpp hw
      · exact hset
      · exact h.setTask (a := a) rfl (show TASK_WAITING ≠ TASK_HANGING by decide) fun _ => hno
  | @sched p a stat ha hold hnew =>
      refine iff_of_true (h.setTask (a := a) rfl hnew.not_hanging fun hw => ?_) trivial
      rcases hnew with h1 | h1 | h1 <;> exact absurd (h1.symm.trans hw) (by decide)

end Sleepers

/-- A step before which the condition holds. -/
def AwakeStep (s : State) (l : Label) (s' : State) : Prop := InitAwake s l ∧ Step s l s'

/-- In a run in which nobody exits while init waits, leaving init a child that hangs, unless init is its
    parent, no process ever waits while it has a child that hangs. -/
theorem noSleeper_of_awake {s s' : State} {ls : List Label} (h : Initial s)
    (hrun : Run AwakeStep s ls s') : NoSleeper s' := by
  have hboth : Inv s' ∧ NoSleeper s' := by
    refine hrun.invariant (I := fun s => Inv s ∧ NoSleeper s) (fun t l t' hI hstep => ?_) ⟨h.inv, ?_⟩
    · exact ⟨hstep.2.inv hI.1, (hstep.2.noSleeper_iff hI.2 hI.1).2 hstep.1⟩
    · intro p a c b _ hb _ _
      exact (h.schedulable c b hb).not_hanging
  exact hboth.2

/-! ### Init sleeps through an exit -/

/-- After `thread_init`: init at 1, main at 2 and the idle thread at 3. -/
def booted : State where
  tasks p :=
    if p = 1 then some ⟨1, none, TASK_RUNNING, 0, false⟩
    else if p = 2 then some ⟨2, none, TASK_BLOCKED, 0, false⟩
    else if p = 3 then some ⟨3, none, TASK_READY, 0, false⟩
    else none
  all_threads_list := [1, 2, 3]
  pid_bitmap := bitmapSet (bitmapSet (bitmapSet ⟨128, Buf.zero⟩ 0 true) 1 true) 2 true
  next := 4
  init_proc := 1
  parent p := p

theorem booted_initial : Initial booted := by
  have hcases : ∀ p a, booted.tasks p = some a →
      (p = 1 ∧ a = ⟨1, none, TASK_RUNNING, 0, false⟩) ∨ (p = 2 ∧ a = ⟨2, none, TASK_BLOCKED, 0, false⟩) ∨
        (p = 3 ∧ a = ⟨3, none, TASK_READY, 0, false⟩) := by
    intro p a ha
    simp only [booted] at ha
    split at ha
    · next h => exact Or.inl ⟨h, (Option.some.inj ha).symm⟩
    · split at ha
      · next h => exact Or.inr (Or.inl ⟨h, (Option.some.inj ha).symm⟩)
      · split at ha
        · next h => exact Or.inr (Or.inr ⟨h, (Option.some.inj ha).symm⟩)
        · cases ha
  constructor
  case nodup => decide
  case mem_iff =>
    intro p
    show p ∈ [1, 2, 3] ↔ _
    constructor
    · intro hp
      simp only [List.mem_cons, List.not_mem_nil, or_false] at hp
      rcases hp with rfl | rfl | rfl
      · exact ⟨_, rfl⟩
      · exact ⟨_, rfl⟩
      · exact ⟨_, rfl⟩
    · rintro ⟨a, ha⟩
      rcases hcases p a ha with ⟨rfl, -⟩ | ⟨rfl, -⟩ | ⟨rfl, -⟩ <;> simp
  case fresh =>
    intro p a ha
    rcases hcases p a ha with ⟨rfl, -⟩ | ⟨rfl, -⟩ | ⟨rfl, -⟩ <;> decide
  case pid_inj =>
    intro p q a b ha hb heq
    rcases hcases p a ha with ⟨rfl, rfl⟩ | ⟨rfl, rfl⟩ | ⟨rfl, rfl⟩ <;>
      rcases hcases q b hb with ⟨rfl, rfl⟩ | ⟨rfl, rfl⟩ | ⟨rfl, rfl⟩ <;> simp at heq ⊢
  case pid_used =>
    intro p a ha
    rcases hcases p a ha with ⟨rfl, rfl⟩ | ⟨rfl, rfl⟩ | ⟨rfl, rfl⟩ <;> decide
  case schedulable =>
    intro p a ha
    rcases hcases p a ha with ⟨rfl, rfl⟩ | ⟨rfl, rfl⟩ | ⟨rfl, rfl⟩ <;> simp [Task.Schedulable]
  case init => exact ⟨_, rfl, rfl⟩
  case parentless =>
    intro p a ha
    rcases hcases p a ha with ⟨rfl, rfl⟩ | ⟨rfl, rfl⟩ | ⟨rfl, rfl⟩ <;> rfl

theorem process_tree_forked : ∃ s', Run Step booted [.fork 1 4] s' ∧
    s'.pid2thread 1 = some (s'.parent 4) := by
  have hrun := Run.single (Step.fork (s := booted) (p := 1) rfl (Or.inl rfl) rfl rfl
    (Option.ne_none_iff_exists'.2 ⟨_, rfl⟩) (sysFork_ok rfl rfl))
  exact ⟨_, hrun, ((process_tree booted_initial hrun).1 4 _ 1 rfl rfl).1⟩

theorem exists_run_cons {P : State → Prop} {s t : State} {l : Label} {ls : List Label} (hinv : Inv s)
    (hstep : Step s l t) (h : Inv t → ∃ u, Run Step t ls u ∧ P u) :
    ∃ u, Run Step s (l :: ls) u ∧ P u := by
  obtain ⟨u, hrun, hP⟩ := h (hstep.inv hinv)
  exact ⟨u, hrun.cons hstep, hP⟩

theorem exists_awake_cons {P : State → Prop} {s t : State} {l : Label} {ls : List Label} (hinv : Inv s)
    (hawake : InitAwake s l) (hstep : Step s l t) (h : Inv t → ∃ u, Run AwakeStep t ls u ∧ P u) :
    ∃ u, Run AwakeStep s (l :: ls) u ∧ P u :=
  Run.exists_cons_and ⟨hawake, hstep⟩ (h (hstep.inv hinv))

/-- 5, a child of 4, hangs while init does not wait; init waits then, and is woken by the exit of its own
    child 4, which leaves it 5. -/
theorem noSleeper_of_awake_adopted : ∃ s', Run AwakeStep booted [.fork 1 4, .sched 1 TASK_READY,
    .sched 4 TASK_RUNNING, .fork 4 5, .sched 4 TASK_READY, .sched 5 TASK_RUNNING, .exit 5 0,
    .sched 1 TASK_RUNNING, .wait 1 .blocked, .sched 4 TASK_RUNNING, .exit 4 0, .sched 1 TASK_RUNNING,
    .wait 1 (.child 4 4 0)] s' ∧ s'.findHangingChild 1 = some 5 ∧ NoSleeper s' := by
  have hfree : ∀ {s : State} {k btmp}, bitmapAllocABit s.pid_bitmap = some (k, btmp) →
      bitmapAllocABit s.pid_bitmap ≠ none := fun h => by simp [h]
  have hready : Task.Schedulable TASK_READY := Or.inl rfl
  have hrunning : Task.Schedulable TASK_RUNNING := Or.inr (Or.inl rfl)
  suffices h : ∃ s', Run AwakeStep booted [.fork 1 4, .sched 1 TASK_READY,
      .sched 4 TASK_RUNNING, .fork 4 5, .sched 4 TASK_READY, .sched 5 TASK_RUNNING, .exit 5 0,
      .sched 1 TASK_RUNNING, .wait 1 .blocked, .sched 4 TASK_RUNNING, .exit 4 0, .sched 1 TASK_RUNNING,
      .wait 1 (.child 4 4 0)] s' ∧ s'.findHangingChild 1 = some 5 by
    obtain ⟨s', hrun, hchild⟩ := h
    exact ⟨s', hrun, hchild, noSleeper_of_awake booted_initial hrun⟩
  refine exists_awake_cons booted_initial.inv trivial
    (Step.fork rfl (Or.inl rfl) rfl rfl (hfree rfl) (sysFork_ok rfl rfl)) fun h => ?_
  refine exists_awake_cons h trivial (Step.sched rfl hrunning hready) fun h => ?_
  refine exists_awake_cons h trivial (Step.sched rfl hready hrunning) fun h => ?_
  refine exists_awake_cons h trivial (Step.fork rfl (Or.inr (Option.some_ne_none _)) rfl rfl (hfree rfl)
    (sysFork_ok rfl rfl)) fun h => ?_
  refine exists_awake_cons h trivial (Step.sched rfl hrunning hready) fun h => ?_
  refine exists_awake_cons h trivial (Step.sched rfl hready hrunning) fun h => ?_
  refine exists_awake_cons h ?_ (Step.exit rfl (by decide) (Or.inr (Option.some_ne_none _)) rfl rfl
    (sysExit_ok h rfl (Option.some_ne_none _) 0)) fun h => ?_
  · intro a c b i _ _ hi _ _ _
    cases hi
    decide
  refine exists_awake_cons h trivial (Step.sched rfl hready hrunning) fun h => ?_
  refine exists_awake_cons h trivial (Step.wait rfl (Or.inl rfl) rfl rfl) fun h => ?_
  refine exists_awake_cons h trivial (Step.sched rfl hready hrunning) fun h => ?_
  refine exists_awake_cons h ?_ (Step.exit rfl (by decide) (Or.inr (Option.some_ne_none _)) rfl rfl
    (sysExit_ok h rfl (Option.some_ne_none _) 0)) fun h => ?_
  · intro a c b i ha _ _ hnot _ _
    cases ha
    exact absurd rfl hnot
  refine exists_awake_cons h trivial (Step.sched rfl hready hrunning) fun h => ?_
  refine exists_awake_cons h trivial (Step.wait rfl (Or.inl rfl) rfl rfl) fun h => ?_
  exact ⟨_, .nil, rfl⟩

/-- Init forks 4, 4 forks 5 and 5 forks 6; 6 exits, init waits, and 5 exits while 4 does not wait. -/
theorem not_noSleeper : Initial booted ∧ ∃ s', Run Step booted [.fork 1 4, .sched 1 TASK_READY,
    .sched 4 TASK_RUNNING, .fork 4 5, .sched 4 TASK_READY, .sched 5 TASK_RUNNING, .fork 5 6,
    .sched 5 TASK_READY, .sched 6 TASK_RUNNING, .exit 6 0, .sched 1 TASK_RUNNING, .wait 1 .blocked,
    .sched 5 TASK_RUNNING, .exit 5 0] s' ∧ ¬ NoSleeper s' := by
  have hfree : ∀ {s : State} {k btmp}, bitmapAllocABit s.pid_bitmap = some (k, btmp) →
      bitmapAllocABit s.pid_bitmap ≠ none := fun h => by simp [h]
  have hready : Task.Schedulable TASK_READY := Or.inl rfl
  have hrunning : Task.Schedulable TASK_RUNNING := Or.inr (Or.inl rfl)
  refine ⟨booted_initial, ?_⟩
  refine exists_run_cons booted_initial.inv
    (Step.fork rfl (Or.inl rfl) rfl rfl (hfree rfl) (sysFork_ok rfl rfl)) fun h => ?_
  refine exists_run_cons h (Step.sched rfl hrunning hready) fun h => ?_
  refine exists_run_cons h (Step.sched rfl hready hrunning) fun h => ?_
  refine exists_run_cons h (Step.fork rfl (Or.inr (Option.some_ne_none _)) rfl rfl (hfree rfl)
    (sysFork_ok rfl rfl)) fun h => ?_
  refine exists_run_cons h (Step.sched rfl hrunning hready) fun h => ?_
  refine exists_run_cons h (Step.sched rfl hready hrunning) fun h => ?_
  refine exists_run_cons h (Step.fork rfl (Or.inr (Option.some_ne_none _)) rfl rfl (hfree rfl)
    (sysFork_ok rfl rfl)) fun h => ?_
  refine exists_run_cons h (Step.sched rfl hrunning hready) fun h => ?_
  refine exists_run_cons h (Step.sched rfl hready hrunning) fun h => ?_
  refine exists_run_cons h (Step.exit rfl (by decide) (Or.inr (Option.some_ne_none _)) rfl rfl
    (sysExit_ok h rfl (Option.some_ne_none _) 0)) fun h => ?_
  refine exists_run_cons h (Step.sched rfl hready hrunning) fun h => ?_
  refine exists_run_cons h (Step.wait rfl (Or.inl rfl) rfl rfl) fun h => ?_
  refine exists_run_cons h (Step.sched rfl hready hrunning) fun h => ?_
  refine exists_run_cons h (Step.exit rfl (by decide) (Or.inr (Option.some_ne_none _)) rfl rfl
    (sysExit_ok h rfl (Option.some_ne_none _) 0)) fun h => ?_
  exact ⟨_, .nil, fun hno => hno 1 _ 6 _ rfl rfl rfl rfl rfl⟩

end WaitExit

end RecoverOS
